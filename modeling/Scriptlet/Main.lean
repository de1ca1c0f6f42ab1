import Scriptlet.Launch

/-!
# The program

Connects the library to files, standard input and standard output.
-/

namespace Scriptlet

open CommandLine (Options)
open Launch (Environment Transcript)

def readFile? (path : String) : IO (Option ByteArray) := do
  try return some (← IO.FS.readBinFile path) catch _ => return none

def userSettings? : IO (Option ByteArray) := do
  let config ← IO.getEnv "XDG_CONFIG_HOME"
  let home ← IO.getEnv "HOME"
  match config <|> home.map (· ++ "/.config") with
  | some dir => readFile? (dir ++ "/jvav/repl.toml")
  | none => return none

def write (t : Transcript) : IO UInt32 := do
  (← IO.getStdout).putStr t.output
  return t.exitCode.toUInt32

/-- The next line of the input without its line break; `line` is what has been read of it,
backwards. -/
partial def readLine? (input : IO.FS.Stream) (line : List UInt8) : IO (Option (List UInt8)) := do
  match (← input.read 1).toList with
  | [] => return if line.isEmpty then none else some line.reverse
  | b :: _ =>
    if b = 10 then return some (Launch.dropReturn line).reverse else readLine? input (b :: line)

partial def interact (input output : IO.FS.Stream) (c : Console) : IO UInt32 := do
  output.putStr c.prompt
  output.flush
  match ← readLine? input [] with
  | none => return 0
  | some bytes =>
    match String.fromUTF8? ⟨bytes.toArray⟩ with
    | none => return 1
    | some line =>
      let step := c.feed Run.generousLimit line
      output.putStr step.output
      output.flush
      match step.next with
      | .proceed c => interact input output c
      | .exit => return 0
      | .crash _ => return Launch.crashCode.toUInt32

def start (o : Options) : IO UInt32 := do
  let paths := o.settings.toList ++ o.script.toList
  let files ← paths.mapM fun path => do return (path, ← readFile? path)
  let env : Environment := ⟨fun path => (files.lookup path).join, ← userSettings?, .empty⟩
  match o.script, Launch.loadSettings? env o with
  | none, some settings =>
    interact (← IO.getStdin) (← IO.getStdout) (.start (Launch.withOptions settings o))
  | _, _ => write (Launch.start Run.generousLimit env o)

end Scriptlet

def main (args : List String) : IO UInt32 :=
  match Scriptlet.CommandLine.parse? args with
  | some (.start o) => Scriptlet.start o
  | _ => Scriptlet.write
      (Scriptlet.Launch.run Scriptlet.Run.generousLimit ⟨fun _ => none, none, .empty⟩ args)
