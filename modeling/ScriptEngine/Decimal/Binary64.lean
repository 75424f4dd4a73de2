/-!
Double-precision numbers kept as their IEEE 754 bit pattern, so that every bit (the sign
of a NaN included) survives storage and comparison. Arithmetic goes through the hardware
`Float`; the sign change, the tests against zero, the comparisons, the rounding of exact
values (integers and decimals read from text) and the decoding used for printing work on the
bits alone.
-/
namespace ScriptEngine

/-- A binary64 number, identified by its 64-bit pattern. -/
structure Binary64 where
  bits : UInt64
  deriving DecidableEq, Repr, Inhabited

namespace Binary64

def signMask : UInt64 := 0x8000000000000000

def ofFloat (x : Float) : Binary64 := ⟨x.toBits⟩

def toFloat (x : Binary64) : Float := Float.ofBits x.bits

def zero : Binary64 := ⟨0⟩

def negZero : Binary64 := ⟨signMask⟩

def infinity : Binary64 := ⟨0x7FF0000000000000⟩

/-- `(a, b)` with `a / b = 2 ^ k`. -/
def powTwo (k : Int) : Nat × Nat :=
  if 0 ≤ k then (Nat.pow 2 k.toNat, 1) else (1, Nat.pow 2 (-k).toNat)

/-- The binary64 number nearest to `num / den` (positive), ties to the even significand:
the significand has 53 bits, or fewer at the bottom exponent `-1074`; too large a value
becomes infinity. -/
def nearest (num den : Nat) : Binary64 :=
  let t0 : Int := (Nat.log2 num : Int) - Nat.log2 den
  let (a, b) := powTwo t0
  let t := if num * b ≥ den * a then t0 else t0 - 1
  let e := max (t - 52) (-1074)
  let (a, b) := powTwo (-e)
  let scaled := num * a
  let unit := den * b
  let q := scaled / unit
  let r := scaled % unit
  let q := if 2 * r > unit || (2 * r == unit && q % 2 == 1) then q + 1 else q
  let (q, e) := if q == Nat.pow 2 53 then (Nat.pow 2 52, e + 1) else (q, e)
  if e > 971 then infinity
  else if q < Nat.pow 2 52 then ⟨q.toUInt64⟩
  else ⟨((e + 1075).toNat.toUInt64 <<< 52) ||| (q - Nat.pow 2 52).toUInt64⟩

/-- Negation flips the sign bit and nothing else, NaNs included. -/
def neg (x : Binary64) : Binary64 := ⟨x.bits ^^^ signMask⟩

/-- The binary64 number nearest to an integer: every integer of at most 53 bits exactly. -/
def ofInt (i : Int) : Binary64 :=
  if i < 0 then (nearest i.natAbs 1).neg else nearest i.natAbs 1

/-- The quiet NaN with a clear sign bit. -/
def nan : Binary64 := ⟨0x7FF8000000000000⟩

def exponentField (x : Binary64) : Nat := ((x.bits >>> 52) &&& 0x7FF).toNat

def fraction (x : Binary64) : Nat := (x.bits &&& 0xFFFFFFFFFFFFF).toNat

def signBit (x : Binary64) : Bool := x.bits &&& signMask != 0

def isNaN (x : Binary64) : Bool := x.exponentField == 0x7FF && x.fraction != 0

/-- Both zeros, and nothing else, compare equal to zero. -/
def isZero (x : Binary64) : Bool := x.bits &&& ~~~signMask == 0

def add (x y : Binary64) : Binary64 := ofFloat (x.toFloat + y.toFloat)

def sub (x y : Binary64) : Binary64 := ofFloat (x.toFloat - y.toFloat)

def mul (x y : Binary64) : Binary64 := ofFloat (x.toFloat * y.toFloat)

def div (x y : Binary64) : Binary64 := ofFloat (x.toFloat / y.toFloat)

/-- The bits below the sign. -/
def magnitude (x : Binary64) : Nat := (x.bits &&& ~~~signMask).toNat

/-- The place of a number among binary64 values: its magnitude, negated when the sign is set.
A larger magnitude has a larger exponent field, or the same one and a larger fraction, so on
numbers that are not NaN the order of places is the numeric order; both zeros sit at 0. -/
def ordinal (x : Binary64) : Int := if x.signBit then -(x.magnitude : Int) else x.magnitude

/-- Numeric equality, as IEEE 754 compares: the two zeros are equal and a NaN equals nothing. -/
def numEq (x y : Binary64) : Bool := !x.isNaN && !y.isNaN && x.ordinal == y.ordinal

/-- The IEEE 754 `<`: false whenever a NaN takes part. -/
def lt (x y : Binary64) : Bool := !x.isNaN && !y.isNaN && x.ordinal < y.ordinal

end Binary64

end ScriptEngine
