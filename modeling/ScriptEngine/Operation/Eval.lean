import ScriptEngine.Fault
/-!
What the operators compute. Equality, inequality and concatenation accept any values; the
other binary operators pass the empty value on. Integer arithmetic stays integral while the
exact result fits in 32 bits (for division: while it is exact), and otherwise is done on
binary64 numbers. Strings order by code points, numbers numerically, and a NaN has no
order.
-/
namespace ScriptEngine

namespace Int32

def minInt : Int := -2147483648

def maxInt : Int := 2147483647

/-- The exact result as a 32-bit integer, when it fits. -/
def ofIntChecked? (r : Int) : Option Int32 :=
  if minInt ≤ r ∧ r ≤ maxInt then some (Int32.ofInt r) else none

end Int32

namespace Operation

/-- Integer arithmetic that is exact in 32 bits; `none` when the result does not fit or,
for division, is not a whole number. The divisor is nonzero. -/
def exactInt (op : BinaryOp) (x y : Int32) : Option Int32 :=
  match op with
  | .add => Int32.ofIntChecked? (x.toInt + y.toInt)
  | .sub => Int32.ofIntChecked? (x.toInt - y.toInt)
  | .mul => Int32.ofIntChecked? (x.toInt * y.toInt)
  | _ =>
    if x.toInt.tmod y.toInt == 0 then Int32.ofIntChecked? (x.toInt.tdiv y.toInt) else none

/-- Addition, subtraction, multiplication and division of two non-empty values. -/
def arithmetic (op : BinaryOp) (a b : Value) : Except Fault Value := do
  if let (.int x, .int y) := (a, b) then
    if op == .div && y == 0 then throw .divisionByZero
    if let some r := exactInt op x y then return .int r
  match a.asNumber, b.asNumber with
  | some x, some y =>
    match op with
    | .add => return .float (x.add y)
    | .sub => return .float (x.sub y)
    | .mul => return .float (x.mul y)
    | _ => if y.isZero then throw .divisionByZero else return .float (x.div y)
  | _, _ => throw (.typeError (.operands op a.kind b.kind))

/-- The order of two non-empty values: strings by code points, numbers numerically. -/
def order (op : BinaryOp) (a b : Value) : Except Fault Ordering :=
  match a, b with
  | .str x, .str y => return compare x y
  | _, _ =>
    match a.asNumber, b.asNumber with
    | some x, some y =>
      if x.isNaN || y.isNaN then throw (.typeError (.unordered op))
      else if x.lt y then return .lt
      else if x.numEq y then return .eq
      else return .gt
    | _, _ => throw (.typeError (.operands op a.kind b.kind))

/-- Equality of values: entities by handle, locks by the lock they hold, numbers by
numeric value across integers and floats, and nothing else across kinds. -/
def equals (a b : Value) : Bool :=
  match a, b with
  | .empty, .empty => true
  | .bool x, .bool y => x == y
  | .str x, .str y => x == y
  | .code x, .code y => x == y
  | .context x, .context y => x == y
  | .lock _ x, .lock _ y => x == y
  | _, _ =>
    match a.asNumber, b.asNumber with
    | some x, some y => x.numEq y
    | _, _ => false

/-- The displayed texts of the non-empty operands, joined. -/
def concat (n : Names) (a b : Value) : Value :=
  .str ((if a.isEmpty then "" else a.display n) ++ (if b.isEmpty then "" else b.display n))

def binary (n : Names) (op : BinaryOp) (a b : Value) : Except Fault Value :=
  match op with
  | .eq => return .bool (equals a b)
  | .ne => return .bool (!equals a b)
  | .concat => return concat n a b
  | _ =>
    if a.isEmpty || b.isEmpty then return .empty
    else match op with
      | .lt => return .bool ((← order op a b) == .lt)
      | .le => return .bool ((← order op a b) != .gt)
      | .gt => return .bool ((← order op a b) == .gt)
      | .ge => return .bool ((← order op a b) != .lt)
      | _ => arithmetic op a b

def unary (op : UnaryOp) (a : Value) : Except Fault Value :=
  match op, a with
  | .isEmpty, _ => return .bool a.isEmpty
  | _, .empty => return .empty
  | .not, _ => return .bool (!(a.truth.getD false))
  | .neg, .int i =>
    match Int32.ofIntChecked? (-i.toInt) with
    | some r => return .int r
    | none => return .float (Binary64.ofInt (-i.toInt))
  | .neg, .float x => return .float x.neg
  | .neg, _ => throw (.typeError (.negate a.kind))

end Operation

end ScriptEngine
