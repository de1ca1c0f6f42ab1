import Scriptlet.Run.Operator
import Scriptlet.Run.Store
import Scriptlet.Typed.Basic

/-!
# Running typed trees

A run changes the store and yields the value of the last expression statement or declaration it
executed. When it ends early, what was stored before stays stored. Each `while` makes at most
`limit` rounds; a run that is not cut off gives the same answer under every larger limit.
-/

namespace Scriptlet.Run

open Typed (Expr Stmt Slot)

abbrev Exec := EStateM Halt Store

def ofExcept {α : Type} : Except Halt α → Exec α
  | .ok a => pure a
  | .error h => throw h

def assign (slot : Slot) (value : Value) : Exec Unit := modify fun s => s.set slot value

/-- Operands are evaluated from left to right, and always both. -/
def eval : Expr → Exec Value
  | .literal value => pure value
  | .unary row operand => do
    let v ← eval operand
    ofExcept (applyUnary row.op v)
  | .binary lhs row rhs => do
    let l ← eval lhs
    let r ← eval rhs
    ofExcept (applyBinary row.op l r)
  | .read v => do
    match (← get).get? v.slot with
    | some value => pure value
    | none => throw (.stuck (.unassigned v))
  | .assign v rhs => do
    let value ← eval rhs
    assign v.slot value
    pure value
  | .paren inner => eval inner

def evalInt (e : Expr) : Exec Int32 := do ofExcept (asInt (← eval e))

def evalBool (e : Expr) : Exec Bool := do ofExcept (asBool (← eval e))

def whileLoop (cond : Exec Bool) (body : Option Value → Exec (Option Value)) :
    Nat → Option Value → Exec (Option Value)
  | 0, _ => throw .cutOff
  | n + 1, last => do
    if ← cond then whileLoop cond body n (← body last) else pure last

def forLoop (slot : Slot) (body : Option Value → Exec (Option Value)) :
    Nat → Int → Option Value → Exec (Option Value)
  | 0, _, last => pure last
  | n + 1, k, last => do
    assign slot (.int (.ofInt k))
    forLoop slot body n (k + 1) (← body last)

def rounds (lower upper : Int32) : Nat := (upper.toInt - lower.toInt + 1).toNat

mutual

def exec (limit : Nat) : Stmt → Option Value → Exec (Option Value)
  | .block body, last => execBody limit body last
  | .expr e, _ => do return some (← eval e)
  | .decl v init, _ => do
    let value ← eval init
    assign v.slot value
    return some value
  | .ifThen cond yes, last => do if ← evalBool cond then exec limit yes last else return last
  | .ifElse cond yes no, last => do
    if ← evalBool cond then exec limit yes last else exec limit no last
  | .while cond body, last =>
    whileLoop (evalBool cond) (fun last => exec limit body last) limit last
  | .for v lower upper body, last => do
    let lo ← evalInt lower
    let hi ← evalInt upper
    forLoop v.slot (fun last => exec limit body last) (rounds lo hi) lo.toInt last

def execBody (limit : Nat) : List Stmt → Option Value → Exec (Option Value)
  | [], last => pure last
  | s :: ss, last => do execBody limit ss (← exec limit s last)

end

def run (limit : Nat) (s : Stmt) (store : Store) : EStateM.Result Halt Store (Option Value) :=
  exec limit s none store

/-- The limit under which programs are run for users, `2 ^ 62`; no loop reaches it in a lifetime. -/
def generousLimit : Nat := 4611686018427387904

end Scriptlet.Run
