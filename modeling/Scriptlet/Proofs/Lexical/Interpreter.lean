import Scriptlet.Syntax.Basic

/-!
# An interpreter with frames

Runs a syntax tree directly, without binding. The state is a stack of frames, each with the values
of some names. Every run of a block, a branch or a loop's body has a frame of its own, which is
dropped when it ends. A name stands for the innermost variable of that name, and operators look only
at the values they get. Each `while` makes at most `limit` rounds. The interpreter is told which
name a token is; a token that is none stands for zero and declares nothing.
-/

namespace Scriptlet.Lexical

open Token (Kind)

/-- The values of the variables that one scope holds, newest first. -/
abbrev Frame := List (String × Value)

inductive Stop
  | divisionByZero (dividend : Int32)
  /-- A name that no frame holds, or an operand of a type that its place has no use for. -/
  | meaningless
  | cutOff
  deriving DecidableEq, Repr

abbrev Interp := EStateM Stop (List Frame)

def orMeaningless {α : Type} : Option α → Interp α
  | some a => pure a
  | none => throw .meaningless

/-! ## Operators -/

def unary : Kind → Value → Interp Value
  | .plus, .int a => return .int a
  | .minus, .int a => return .int (-a)
  | .bang, .bool a => return .bool (!a)
  | _, _ => throw .meaningless

def onInts (a b : Int32) : Kind → Interp Value
  | .plus => return .int (a + b)
  | .minus => return .int (a - b)
  | .star => return .int (a * b)
  | .slash => if b = 0 then throw (.divisionByZero a) else return .int (a / b)
  | .amp => return .int (a &&& b)
  | .pipe => return .int (a ||| b)
  | .hat => return .int (a ^^^ b)
  | .eqEq => return .bool (a = b)
  | .bangEq => return .bool (a ≠ b)
  | .less => return .bool (a < b)
  | .lessEq => return .bool (a ≤ b)
  | .greater => return .bool (a > b)
  | .greaterEq => return .bool (a ≥ b)
  | _ => throw .meaningless

def onBools (a b : Bool) : Kind → Interp Value
  | .ampAmp | .amp => return .bool (a && b)
  | .pipePipe | .pipe => return .bool (a || b)
  | .hat | .bangEq => return .bool (a != b)
  | .eqEq => return .bool (a == b)
  | _ => throw .meaningless

def binary (op : Kind) : Value → Value → Interp Value
  | .int a, .int b => onInts a b op
  | .bool a, .bool b => onBools a b op
  | _, _ => throw .meaningless

/-! ## Frames -/

def read? (name : String) (frames : List Frame) : Option Value :=
  frames.findSome? fun frame => frame.lookup name

def Frame.put (name : String) (value : Value) (frame : Frame) : Frame :=
  frame.map fun entry => if entry.1 = name then (name, value) else entry

def write? (name : String) (value : Value) : List Frame → Option (List Frame)
  | [] => none
  | frame :: frames =>
    if (frame.lookup name).isSome then some (frame.put name value :: frames)
    else (write? name value frames).map (frame :: ·)

def read (name : String) : Interp Value := do orMeaningless (read? name (← get))

def assign (name : String) (value : Value) : Interp Unit := do
  set (← orMeaningless (write? name value (← get)))

def declare (new : Frame) : List Frame → List Frame
  | [] => []
  | frame :: frames => (new ++ frame) :: frames

def within {α : Type} (frame : Frame) (m : Interp α) : Interp α := do
  modify (frame :: ·)
  let a ← m
  modify List.tail
  return a

/-! ## Expressions -/

section
variable (names : Token → Option String)

/-- Operands are evaluated from left to right, and always both. -/
def eval : Syntax.Expr → Interp Value
  | .literal _ value => return value.getD (.int 0)
  | .unary op operand => do unary op.kind (← eval operand)
  | .binary lhs op rhs => do
    let a ← eval lhs
    let b ← eval rhs
    binary op.kind a b
  | .paren _ inner _ => eval inner
  | .name ident =>
    match names ident with
    | some name => read name
    | none => return .int 0
  | .assign ident _ rhs => do
    let value ← eval rhs
    assign ident.text value
    return value

def evalInt (e : Syntax.Expr) : Interp Int32 := do
  match ← eval names e with
  | .int n => return n
  | .bool _ => throw .meaningless

def evalBool (e : Syntax.Expr) : Interp Bool := do
  match ← eval names e with
  | .bool b => return b
  | .int _ => throw .meaningless

end

/-! ## Statements -/

def whileLoop (cond : Interp Bool) (body : Option Value → Interp (Option Value)) :
    Nat → Option Value → Interp (Option Value)
  | 0, _ => throw .cutOff
  | n + 1, last => do
    if ← cond then whileLoop cond body n (← body last) else return last

def forLoop (body : Value → Option Value → Interp (Option Value)) :
    Nat → Int → Option Value → Interp (Option Value)
  | 0, _, last => return last
  | n + 1, k, last => do forLoop body n (k + 1) (← body (.int (.ofInt k)) last)

section
variable (names : Token → Option String)

def single (ident : Token) (value : Value) : Frame := (names ident).toList.map (·, value)

mutual

def exec (limit : Nat) : Syntax.Stmt → Option Value → Interp (Option Value)
  | .block _ body _, last => within [] (execBody limit body last)
  | .expr e, _ => do return some (← eval names e)
  | .decl _ ident _ init, _ => do
    let value ← eval names init
    modify (declare (single names ident value))
    return some value
  | .ifThen _ cond yes, last => do
    if ← evalBool names cond then within [] (exec limit yes last) else return last
  | .ifElse _ cond yes _ no, last => do
    if ← evalBool names cond then within [] (exec limit yes last)
    else within [] (exec limit no last)
  | .while _ cond body, last =>
    whileLoop (evalBool names cond) (fun last => within [] (exec limit body last)) limit last
  | .for _ ident _ lower _ upper body, last => do
    let lo ← evalInt names lower
    let hi ← evalInt names upper
    let count := (hi.toInt - lo.toInt + 1).toNat
    forLoop (fun k last => within (single names ident k) (exec limit body last)) count lo.toInt last

def execBody (limit : Nat) : List Syntax.Stmt → Option Value → Interp (Option Value)
  | [], last => return last
  | s :: ss, last => do execBody limit ss (← exec limit s last)

end

def run (limit : Nat) (s : Syntax.Stmt) : Except Stop (Option Value) :=
  match exec names limit s none [[]] with
  | .ok last _ => .ok last
  | .error stop _ => .error stop

def EndsIn (s : Syntax.Stmt) (outcome : Except Stop (Option Value)) : Prop :=
  ∃ n, ∀ n', n ≤ n' → run names n' s = outcome

end

end Scriptlet.Lexical
