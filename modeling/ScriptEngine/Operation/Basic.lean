/-!
The operators of the instruction set: binary operators on two values and unary operators
on one, each with the mnemonic under which listings and error texts name it.
-/
namespace ScriptEngine

inductive BinaryOp where
  | add
  | sub
  | mul
  | div
  | concat
  | eq
  | ne
  | lt
  | le
  | gt
  | ge
  deriving DecidableEq, Repr

def BinaryOp.mnemonic : BinaryOp → String
  | .add => "add"
  | .sub => "sub"
  | .mul => "mul"
  | .div => "div"
  | .concat => "concat"
  | .eq => "cmpeq"
  | .ne => "cmpne"
  | .lt => "cmplt"
  | .le => "cmple"
  | .gt => "cmpgt"
  | .ge => "cmpge"

inductive UnaryOp where
  | not
  | neg
  | isEmpty
  deriving DecidableEq, Repr

def UnaryOp.mnemonic : UnaryOp → String
  | .not => "not"
  | .neg => "neg"
  | .isEmpty => "isempty"

end ScriptEngine
