import Scriptlet.Settings.Document

/-!
# Settings

What a settings document can change. Every key is optional, may be given once, and unknown ones are
refused.
-/

namespace Scriptlet

structure Settings where
  prompt : String := "» "
  /-- Shown while a submission takes several lines. -/
  continuationPrompt : String := "· "
  showTree : Bool := false
  showProgram : Bool := false
  logFilter : Option String := none
  deriving DecidableEq, Repr

namespace Settings

def set? (s : Settings) : String → Scalar → Option Settings
  | "prompt", .string v => some { s with prompt := v }
  | "continuation_prompt", .string v => some { s with continuationPrompt := v }
  | "show_tree", .boolean v => some { s with showTree := v }
  | "show_program", .boolean v => some { s with showProgram := v }
  | "log_filter", .string v => some { s with logFilter := some v }
  | _, _ => none

def ofEntries? (entries : List (String × Scalar)) : Option Settings :=
  if (entries.map (·.1)).Nodup then entries.foldlM (fun s (k, v) => s.set? k v) {} else none

def parse? (text : String) : Option Settings := do ofEntries? (← Document.parse? text)

end Settings

end Scriptlet
