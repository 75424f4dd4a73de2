import ScriptEngine.Operation.Basic
/-!
Instructions. Table operands (literals, names, locals) and counts are 16-bit numbers, jump
targets 32-bit ones. A jump names its target either by instruction index or, until the code
is relocated, by label (`symbolic`). Each instruction has a mnemonic and a one-line text
form: the mnemonic padded to ten columns, then the operand.
-/
namespace ScriptEngine

inductive JumpCondition where
  | always
  | ifTrue
  | ifFalse
  | ifEmpty
  /-- Installs an exception handler at the target instead of jumping. -/
  | handler
  deriving DecidableEq, Repr

structure Jump where
  condition : JumpCondition
  pop : Bool
  symbolic : Bool
  target : Nat
  deriving DecidableEq, Repr

def Jump.mnemonic (j : Jump) : String :=
  match j.condition, j.pop with
  | .always, false => "j"
  | .always, true => "jdrop"
  | .ifTrue, false => "jt"
  | .ifTrue, true => "jtp"
  | .ifFalse, false => "jf"
  | .ifFalse, true => "jfp"
  | .ifEmpty, false => "je"
  | .ifEmpty, true => "jep"
  | .handler, _ => "catch"

/-- Instructions that act on the process rather than on values. -/
inductive Control where
  | uncatch
  | throw
  | terminate
  | suspend
  | stop
  | enter
  | leave
  | lock
  deriving DecidableEq, Repr

def Control.mnemonic : Control → String
  | .uncatch => "uncatch"
  | .throw => "throw"
  | .terminate => "terminate"
  | .suspend => "suspend"
  | .stop => "stop"
  | .enter => "with"
  | .leave => "endwith"
  | .lock => "lock"

inductive Instr where
  | nop
  | pushLiteral (i : Nat)
  | pushLocal (i : Nat)
  | storeLocal (i : Nat)
  | popLocal (i : Nat)
  | pushName (i : Nat)
  | storeName (i : Nat)
  | binary (op : BinaryOp)
  | unary (op : UnaryOp)
  | drop (n : Nat)
  | dup (depth : Nat)
  | jump (j : Jump)
  | label (id : Nat)
  | call (args : Nat) (wantResult : Bool)
  | ret (n : Nat)
  | control (c : Control)
  deriving DecidableEq, Repr

namespace Instr

def mnemonic : Instr → String
  | .nop => "nop"
  | .pushLiteral _ => "pushlit"
  | .pushLocal _ => "pushloc"
  | .storeLocal _ => "storeloc"
  | .popLocal _ => "poploc"
  | .pushName _ => "pushvar"
  | .storeName _ => "storevar"
  | .binary op => op.mnemonic
  | .unary op => op.mnemonic
  | .drop _ => "drop"
  | .dup _ => "dup"
  | .jump j => j.mnemonic
  | .label _ => "label"
  | .call _ true => "callfunc"
  | .call _ false => "callsub"
  | .ret _ => "ret"
  | .control c => c.mnemonic

def isJump : Instr → Bool
  | .jump _ => true
  | _ => false

def isCall : Instr → Bool
  | .call _ _ => true
  | _ => false

def padRight (s : String) (width : Nat) : String :=
  s ++ String.ofList (List.replicate (width - s.length) ' ')

/-- The one-line form: `pushlit   4`, `jf        L2`, `catch     #9`, `add`. -/
def text (op : Instr) : String :=
  let head := padRight op.mnemonic 10
  match op with
  | .pushLiteral i | .pushLocal i | .storeLocal i | .popLocal i | .pushName i
  | .storeName i | .drop i | .dup i | .ret i => head ++ toString i
  | .label l => head ++ "L" ++ toString l
  | .jump j => head ++ (if j.symbolic then "L" else "#") ++ toString j.target
  | .call args _ => head ++ toString args
  | _ => op.mnemonic

end Instr

end ScriptEngine
