import Scriptlet.CommandLine
import Scriptlet.Console

/-!
# Launching

From arguments, files and input to the text written and the exit code. Wrong usage exits with 2;
a file that cannot be used, a rejected or failed script and unreadable input with 1.
-/

namespace Scriptlet.Launch

open CommandLine (Options Request)
open Syntax (Fragment)

structure Transcript where
  output : String
  exitCode : Nat
  deriving DecidableEq, Repr

def crashCode : Nat := 101

/-! ## Input -/

def dropReturn : List UInt8 → List UInt8
  | 13 :: bytes => bytes
  | bytes => bytes

/-- The lines of an input without their line breaks; `line` is the current one so far, backwards.
A last line needs no line break, and keeps a carriage return. -/
def byteLines (line : List UInt8) : List UInt8 → List (List UInt8)
  | [] => if line.isEmpty then [] else [line.reverse]
  | b :: bytes =>
    if b = 10 then (dropReturn line).reverse :: byteLines [] bytes else byteLines (b :: line) bytes

/-- The lines of an input; those that are no UTF-8 text are `none`. -/
def inputLines (input : ByteArray) : List (Option String) :=
  (byteLines [] input.toList).map fun bytes => String.fromUTF8? ⟨bytes.toArray⟩

/-! ## Settings -/

def readSettings? (contents : ByteArray) : Option Settings := do
  Settings.parse? (← String.fromUTF8? contents)

def withOptions (s : Settings) (o : Options) : Settings :=
  { s with
    showTree := s.showTree || o.showTree
    showProgram := s.showProgram || o.showProgram
    logFilter := o.log <|> s.logFilter }

/-! ## Running -/

def runConsole (limit : Nat) (c : Console) : List (Option String) → Transcript
  | [] => ⟨c.prompt, 0⟩
  | none :: _ => ⟨c.prompt, 1⟩
  | some line :: lines =>
    let step := c.feed limit line
    let written := c.prompt ++ step.output
    match step.next with
    | .proceed c =>
      let rest := runConsole limit c lines
      ⟨written ++ rest.output, rest.exitCode⟩
    | .exit => ⟨written, 0⟩
    | .crash _ => ⟨written, crashCode⟩

def runScript (limit : Nat) (settings : Settings) (text : String) : Transcript :=
  let (reply, _) := (Console.start settings).session.submit limit (Fragment.parse text)
  match reply.result with
  | .ok (.evaluated _) => ⟨reply.output, 0⟩
  | .ok _ => ⟨reply.output, 1⟩
  | .error _ => ⟨reply.output, crashCode⟩

structure Environment where
  /-- The contents of a file, if it can be read. -/
  file : String → Option ByteArray
  /-- The settings file of the user, if there is one. -/
  userSettings : Option ByteArray
  input : ByteArray

/-- The settings of a run. A file named in the options has to be there; the user's need not. -/
def loadSettings? (env : Environment) (o : Options) : Option Settings :=
  match o.settings with
  | some path => do readSettings? (← env.file path)
  | none => env.userSettings.elim (some {}) readSettings?

def start (limit : Nat) (env : Environment) (o : Options) : Transcript :=
  match loadSettings? env o with
  | none => ⟨"", 1⟩
  | some settings =>
    let settings := withOptions settings o
    match o.script with
    | none => runConsole limit (.start settings) (inputLines env.input)
    | some path =>
      match env.file path >>= String.fromUTF8? with
      | some text => runScript limit settings text
      | none => ⟨"", 1⟩

def run (limit : Nat) (env : Environment) (args : List String) : Transcript :=
  match CommandLine.parse? args with
  | none => ⟨"", 2⟩
  | some .help => ⟨CommandLine.helpText, 0⟩
  | some .version => ⟨CommandLine.versionText, 0⟩
  | some (.start o) => start limit env o

end Scriptlet.Launch
