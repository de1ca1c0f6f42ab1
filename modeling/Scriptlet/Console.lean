import Scriptlet.Session
import Scriptlet.Settings.Basic
import Scriptlet.Text.Whitespace

/-!
# The console

Reads a session line by line. Lines are collected until their text is without syntax faults, and
submitted as they are after a blank line. Between submissions, a line that starts with `#` is a
command and a blank line is nothing.
-/

namespace Scriptlet

open Syntax (Fragment)

structure Console where
  settings : Settings
  session : Session
  /-- The lines of the submission that is being written. -/
  pending : List String := []
  deriving Repr

namespace Console

inductive Command
  | showTree
  | showProgram
  | clear
  | reset
  | exit
  | unknown (text : String)
  deriving DecidableEq, Repr

def Command.parse (line : List Char) : Command :=
  match String.ofList line.tail with
  | "showTree" => .showTree
  | "showProgram" => .showProgram
  | "cls" => .clear
  | "reset" => .reset
  | "exit" => .exit
  | _ => .unknown (String.ofList line)

inductive Event
  | nothing
  | command (c : Command)
  /-- The lines are complete. -/
  | submission (fragment : Fragment)
  /-- The lines need more. -/
  | continuation (lines : List String)
  deriving Repr

def interpret (pending : List String) (line : String) : Event :=
  let chars := line.toList
  let blank := Text.isBlank chars
  if pending.isEmpty && blank then .nothing
  else if pending.isEmpty && chars.head? == some '#' then .command (.parse (Text.trim chars))
  else
    let lines := pending ++ [line]
    let fragment := Fragment.parse ("\n".intercalate lines)
    if blank || fragment.isClean then .submission fragment else .continuation lines

inductive Next
  | proceed (console : Console)
  | exit
  | crash (cause : Session.Crash)
  deriving Repr

structure Step where
  output : String
  next : Next
  deriving Repr

def start (settings : Settings) : Console :=
  ⟨settings, { showTree := settings.showTree, showProgram := settings.showProgram }, []⟩

def prompt (c : Console) : String :=
  if c.pending.isEmpty then c.settings.prompt else c.settings.continuationPrompt

/-- Clears the screen of a terminal and moves to its first column. -/
def clearScreen : String := "\x1b[2J\x1b[1;1H"

def announce (shown : Bool) (what : String) : String :=
  (if shown then "Showing " else "Not showing ") ++ what ++ ".\n"

def execute (c : Console) : Command → Step
  | .showTree =>
    let session := c.session.toggleTree
    ⟨announce session.showTree "parse trees", .proceed { c with session }⟩
  | .showProgram =>
    let session := c.session.toggleProgram
    ⟨announce session.showProgram "bound trees", .proceed { c with session }⟩
  | .clear => ⟨clearScreen, .proceed c⟩
  | .reset => ⟨"", .proceed { c with session := c.session.reset }⟩
  | .exit => ⟨"", .exit⟩
  | .unknown text => ⟨s!"unknown command '{text}'\n", .proceed c⟩

def submit (limit : Nat) (c : Console) (fragment : Fragment) : Step :=
  let (reply, session) := c.session.submit limit fragment
  match reply.result with
  | .ok _ => ⟨reply.output, .proceed { c with session, pending := [] }⟩
  | .error cause => ⟨reply.output, .crash cause⟩

def feed (limit : Nat) (c : Console) (line : String) : Step :=
  match interpret c.pending line with
  | .nothing => ⟨"", .proceed c⟩
  | .command command => c.execute command
  | .submission fragment => c.submit limit fragment
  | .continuation lines => ⟨"", .proceed { c with pending := lines }⟩

end Console

end Scriptlet
