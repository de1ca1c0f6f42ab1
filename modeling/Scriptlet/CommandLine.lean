/-!
# The command line

Options come in any order and at most once; the one argument that is no option names a script.
After `--`, nothing is an option. Asking for help or for the version ends the reading of options.
-/

namespace Scriptlet.CommandLine

structure Options where
  script : Option String := none
  settings : Option String := none
  showTree : Bool := false
  showProgram : Bool := false
  log : Option String := none
  deriving DecidableEq, Repr

inductive Request
  | start (options : Options)
  | help
  | version
  deriving DecidableEq, Repr

inductive Argument
  /-- `--` -/
  | separator
  /-- `--name` or `--name=value` -/
  | long (name : String) (value : Option String)
  /-- `-n`, with what follows the letter -/
  | short (letter : Char) (attached : List Char)
  | plain (text : String)
  deriving DecidableEq, Repr

def Argument.ofChars : List Char → Argument
  | ['-', '-'] => .separator
  | '-' :: '-' :: cs =>
    let name := String.ofList (cs.takeWhile (· != '='))
    match cs.dropWhile (· != '=') with
    | _ :: value => .long name (some (String.ofList value))
    | [] => .long name none
  | '-' :: c :: cs => .short c cs
  | cs => .plain (String.ofList cs)

def Argument.of (arg : String) : Argument := ofChars arg.toList

/-- The value that follows a letter directly; an equals sign between them is dropped. -/
def attachedValue? : List Char → Option String
  | [] => none
  | '=' :: cs => some (String.ofList cs)
  | cs => some (String.ofList cs)

/-! ## Options

Each is refused where it has been given before. -/

inductive Valued
  | settings
  | log
  deriving DecidableEq, Repr

namespace Options

def addScript? (o : Options) (path : String) : Option Options :=
  if o.script.isNone && !path.isEmpty then some { o with script := some path } else none

def addValue? (o : Options) : Valued → String → Option Options
  | .settings, path =>
    if o.settings.isNone && !path.isEmpty then some { o with settings := some path } else none
  | .log, filter => if o.log.isNone then some { o with log := some filter } else none

def addScripts? (o : Options) : List String → Option Options
  | [] => some o
  | path :: paths => do (← o.addScript? path).addScripts? paths

end Options

inductive Meaning
  | separator
  | showTree
  | showProgram
  | help
  | version
  | script (path : String)
  | value (option : Valued) (text : String)
  /-- The value is the next argument. -/
  | awaiting (option : Valued)
  deriving DecidableEq, Repr

def valued (option : Valued) : Option String → Meaning
  | some text => .value option text
  | none => .awaiting option

def Argument.meaning? : Argument → Option Meaning
  | .separator => some .separator
  | .long "show-tree" none => some .showTree
  | .long "show-program" none => some .showProgram
  | .long "help" none => some .help
  | .long "version" none => some .version
  | .long "config" value => some (valued .settings value)
  | .long "log" value => some (valued .log value)
  | .long _ _ => none
  | .short 'h' _ => some .help
  | .short 'V' _ => some .version
  | .short 'c' attached => some (valued .settings (attachedValue? attached))
  | .short _ _ => none
  | .plain text => some (.script text)

def readFrom (o : Options) : List String → Option Request
  | [] => some (.start o)
  | arg :: args => do
    match ← (Argument.of arg).meaning? with
    | .separator => return .start (← o.addScripts? args)
    | .showTree => if o.showTree then none else readFrom { o with showTree := true } args
    | .showProgram => if o.showProgram then none else readFrom { o with showProgram := true } args
    | .help => return .help
    | .version => return .version
    | .script path => readFrom (← o.addScript? path) args
    | .value option text => readFrom (← o.addValue? option text) args
    | .awaiting option =>
      match args with
      | [] => none
      | next :: args =>
        match Argument.of next with
        | .plain text => readFrom (← o.addValue? option text) args
        | _ => none

def parse? (args : List String) : Option Request := readFrom {} args

def versionText : String := "jvav 0.1.0\n"

def helpText : String :=
  "\n".intercalate
    ["Usage: jvav [OPTIONS] [SCRIPT]",
      "",
      "  SCRIPT                 run this file instead of reading from the console",
      "  -c, --config <CONFIG>  read settings from this file",
      "      --show-tree        show the syntax tree of every submission",
      "      --show-program     show the bound tree of every submission",
      "      --log <LOG>        what to log",
      "  -h, --help             show this text",
      "  -V, --version          show the version",
      ""]

end Scriptlet.CommandLine
