import Mathlib.Algebra.Group.Nat.Defs
import ScriptEngine.Operation.Eval
/-!
Integer arithmetic is exact or widens, never wraps: on two integers the four operators give
an integer exactly when the mathematical result is a whole number that fits in 32 bits, a
division by zero fails, and any other result is a float; negation is exact but at the least
32-bit integer, whose negation is the float `2^31`. The float path rests on one fact of the
rounding: a nonzero integer of at most 53 bits is held exactly, as a normal number.
-/
namespace ScriptEngine

namespace Binary64

theorem powTwoNonneg {k : Int} (nonneg : 0 ≤ k) : powTwo k = (2 ^ k.toNat, 1) := by
  simp [powTwo, nonneg]

theorem wholeSignificand {n : Nat} (pos : 0 < n) (small : n < 2 ^ 53) :
    2 ^ 52 ≤ n * 2 ^ (52 - Nat.log2 n) ∧ n * 2 ^ (52 - Nat.log2 n) < 2 ^ 53 := by
  have low : 2 ^ Nat.log2 n ≤ n := Nat.log2_self_le (Nat.ne_of_gt pos)
  have high : n < 2 ^ (Nat.log2 n + 1) := Nat.lt_log2_self
  have top : Nat.log2 n < 53 := (Nat.log2_lt (Nat.ne_of_gt pos)).mpr small
  constructor
  · calc 2 ^ 52 = 2 ^ Nat.log2 n * 2 ^ (52 - Nat.log2 n) := by rw [← Nat.pow_add]; congr 1; omega
      _ ≤ n * 2 ^ (52 - Nat.log2 n) := Nat.mul_le_mul_right _ low
  · calc n * 2 ^ (52 - Nat.log2 n) < 2 ^ (Nat.log2 n + 1) * 2 ^ (52 - Nat.log2 n) :=
          Nat.mul_lt_mul_of_pos_right high (Nat.two_pow_pos _)
      _ = 2 ^ 53 := by rw [← Nat.pow_add]; congr 1; omega

theorem nearestWhole {n : Nat} (pos : 0 < n) (small : n < 2 ^ 53) :
    nearest n 1 =
      ⟨((Nat.log2 n + 1023).toUInt64 <<< 52) ||| (n * 2 ^ (52 - Nat.log2 n) - 2 ^ 52).toUInt64⟩ := by
  have low : 2 ^ Nat.log2 n ≤ n := Nat.log2_self_le (Nat.ne_of_gt pos)
  have top : Nat.log2 n < 53 := (Nat.log2_lt (Nat.ne_of_gt pos)).mpr small
  -- the significand is `n` shifted to 53 bits, with nothing to round
  obtain ⟨scaledLow, scaledHigh⟩ := wholeSignificand pos small
  have log1 : Nat.log2 1 = 0 := @Nat.log2_two_pow 0
  have exponent : max ((Nat.log2 n : Int) - 52) (-1074) = (Nat.log2 n : Int) - 52 := by omega
  have shift : (-((Nat.log2 n : Int) - 52)).toNat = 52 - Nat.log2 n := by omega
  unfold nearest
  simp only [log1, Int.natCast_zero, Int.sub_zero]
  rw [powTwoNonneg (Int.natCast_nonneg _)]
  simp only [Int.toNat_natCast, Nat.mul_one, Nat.one_mul, ge_iff_le, Nat.pow_eq, if_pos low, exponent]
  rw [powTwoNonneg (by omega), shift]
  simp only [Nat.div_one, Nat.mod_one, Nat.mul_zero]
  generalize n * 2 ^ (52 - Nat.log2 n) = q at scaledLow scaledHigh ⊢
  have noRound : (decide (0 > 1) || (0 == 1 && q % 2 == 1)) = false := rfl
  have notTop : (q == 2 ^ 53) = false := beq_false_of_ne (Nat.ne_of_lt scaledHigh)
  have bias : ((Nat.log2 n : Int) - 52 + 1075).toNat = Nat.log2 n + 1023 := by omega
  have finite : ¬ ((Nat.log2 n : Int) - 52 > 971) := by omega
  simp only [noRound, notTop, Bool.false_eq_true, if_false, finite, Nat.not_lt.mpr scaledLow, bias]

theorem normalNotZero {E F : Nat} (pos : 0 < E) (fits : E < 2048) (fraction : F < 2 ^ 52) :
    isZero ⟨(E.toUInt64 <<< 52) ||| F.toUInt64⟩ = false := by
  unfold isZero
  rw [beq_eq_false_iff_ne]
  intro zero
  have bits := congrArg UInt64.toNat zero
  -- below the sign bit, the bits read as a number at least `E * 2^52`
  have below : E * 2 ^ 52 ||| F < 2 ^ 63 := Nat.or_lt_two_pow (by omega) (by omega)
  have exp : E.toUInt64.toNat = E := UInt64.toNat_ofNat_of_lt' (by unfold UInt64.size; omega)
  have frac : F.toUInt64.toNat = F := UInt64.toNat_ofNat_of_lt' (by unfold UInt64.size; omega)
  have mask : UInt64.size - 1 - signMask.toNat = 2 ^ 63 - 1 := rfl
  have shift : (52 : UInt64).toNat % 64 = 52 := rfl
  simp only [UInt64.toNat_and, UInt64.toNat_or, UInt64.toNat_shiftLeft, UInt64.toNat_not, exp, frac] at bits
  rw [shift, mask, Nat.shiftLeft_eq, Nat.mod_eq_of_lt (by omega), Nat.and_two_pow_sub_one_eq_mod,
    Nat.mod_eq_of_lt below, UInt64.toNat_zero, Nat.or_eq_zero_iff] at bits
  omega

theorem negIsZero (x : Binary64) : x.neg.isZero = x.isZero := by
  unfold neg isZero
  congr 1
  show (x.bits ^^^ signMask) &&& ~~~signMask = x.bits &&& ~~~signMask
  apply UInt64.toBitVec_inj.mp
  simp only [UInt64.toBitVec_and, UInt64.toBitVec_xor, UInt64.toBitVec_not]
  -- the sign bit is cleared either way
  ext i hi
  simp only [BitVec.getElem_and, BitVec.getElem_xor, BitVec.getElem_not]
  cases x.bits.toBitVec[i] <;> cases signMask.toBitVec[i] <;> rfl

theorem ofIntNotZero {i : Int} (nonzero : i ≠ 0) (small : i.natAbs < 2 ^ 53) : (ofInt i).isZero = false := by
  have whole : (nearest i.natAbs 1).isZero = false := by
    have pos : 0 < i.natAbs := Int.natAbs_pos.mpr nonzero
    have top : Nat.log2 i.natAbs < 53 := (Nat.log2_lt (Nat.ne_of_gt pos)).mpr small
    have significand := wholeSignificand pos small
    rw [nearestWhole pos small]
    exact normalNotZero (by omega) (by omega) (by omega)
  unfold ofInt
  split
  · rw [negIsZero, whole]
  · exact whole

end Binary64

namespace BinaryOp

def IsArithmetic (op : BinaryOp) : Prop := op = .add ∨ op = .sub ∨ op = .mul ∨ op = .div

/-- The mathematical result of an arithmetic operator on two integers when it is a whole
number: a quotient only when the divisor is nonzero and divides. -/
def wholeResult (op : BinaryOp) (x y : Int) : Option Int :=
  match op with
  | .add => some (x + y)
  | .sub => some (x - y)
  | .mul => some (x * y)
  | .div => if y ≠ 0 ∧ y ∣ x then some (x / y) else none
  | _ => none

end BinaryOp

namespace Int32

theorem toIntBounds (r : Int32) : -2147483648 ≤ r.toInt ∧ r.toInt ≤ 2147483647 :=
  ⟨Int32.minValue_le_toInt r, Int32.toInt_le r⟩

theorem toIntNeZero {y : Int32} (nonzero : y ≠ 0) : y.toInt ≠ 0 :=
  fun zero => nonzero (Int32.toInt_inj.mp (zero.trans Int32.toInt_zero.symm))

theorem ofIntCheckedSome {m : Int} {r : Int32} : ofIntChecked? m = some r ↔ r.toInt = m := by
  obtain ⟨low, high⟩ := toIntBounds r
  unfold ofIntChecked? minInt maxInt
  constructor
  · intro checked
    split at checked
    · cases checked
      exact Int32.toInt_ofInt_of_le (by omega) (by omega)
    · cases checked
  · rintro rfl
    rw [if_pos ⟨low, high⟩]
    exact congrArg some (Int32.toInt_inj.mp (Int32.toInt_ofInt_of_le (by omega) (by omega)))

end Int32

namespace Operation

variable {op : BinaryOp}

theorem exactIntSome (arith : op.IsArithmetic) {x y : Int32} (nonzero : op = .div → y ≠ 0) {r : Int32} :
    exactInt op x y = some r ↔ op.wholeResult x.toInt y.toInt = some r.toInt := by
  rcases arith with rfl | rfl | rfl | rfl
  case inr.inr.inr =>
    -- a remainder of zero is divisibility, and then truncating and flooring agree
    have divisor := Int32.toIntNeZero (nonzero rfl)
    unfold exactInt BinaryOp.wholeResult
    by_cases divides : y.toInt ∣ x.toInt
    · rw [if_pos (by simpa using Int.dvd_iff_tmod_eq_zero.mp divides), if_pos ⟨divisor, divides⟩,
        Int.tdiv_eq_ediv_of_dvd divides, Int32.ofIntCheckedSome, Option.some.injEq, eq_comm]
    · rw [if_neg (by simpa using mt Int.dvd_iff_tmod_eq_zero.mpr divides), if_neg fun both => divides both.2]
      simp
  all_goals
    simp only [exactInt, BinaryOp.wholeResult]
    rw [Int32.ofIntCheckedSome, Option.some.injEq, eq_comm]

@[simp] theorem pureOk {α : Type} (a : α) : (pure a : Except Fault α) = .ok a := rfl

theorem binaryOfArithmetic (n : Names) (arith : op.IsArithmetic) (a b : Value) :
    binary n op a b = if a.isEmpty || b.isEmpty then .ok .empty else arithmetic op a b := by
  rcases arith with rfl | rfl | rfl | rfl <;> rfl

theorem binaryInts (n : Names) (arith : op.IsArithmetic) (x y : Int32) :
    binary n op (.int x) (.int y) = arithmetic op (.int x) (.int y) := by
  rw [binaryOfArithmetic n arith]
  rfl

theorem arithmeticDivZero (x : Int32) : arithmetic .div (.int x) (.int 0) = .error .divisionByZero := rfl

theorem noFaultFirst {y : Int32} (nonzero : op = .div → y ≠ 0) : (op == .div && y == 0) = false := by
  by_cases div : op = .div
  · simpa [div] using nonzero div
  · simp [div]

theorem arithmeticExact (x y : Int32) (nonzero : op = .div → y ≠ 0) {r : Int32} (exact : exactInt op x y = some r) :
    arithmetic op (.int x) (.int y) = .ok (.int r) := by
  simp [arithmetic, noFaultFirst nonzero, exact]

theorem arithmeticWidens (arith : op.IsArithmetic) (x y : Int32) (nonzero : op = .div → y ≠ 0)
    (inexact : exactInt op x y = none) : ∃ f, arithmetic op (.int x) (.int y) = .ok (.float f) := by
  rcases arith with rfl | rfl | rfl | rfl
  case inr.inr.inr =>
    have y0 : y ≠ 0 := nonzero rfl
    have fits : y.toInt.natAbs < 2 ^ 53 := by
      have := Int32.toIntBounds y
      omega
    simp [arithmetic, inexact, Value.asNumber, y0, Binary64.ofIntNotZero (Int32.toIntNeZero y0) fits]
  all_goals simp [arithmetic, inexact, Value.asNumber]

theorem negInt (x : Int32) :
    (∀ r : Int32, unary .neg (.int x) = .ok (.int r) ↔ x.toInt ≠ Int32.minInt ∧ r.toInt = -x.toInt) ∧
      (x.toInt = Int32.minInt → unary .neg (.int x) = .ok (.float (Binary64.ofInt 2147483648))) := by
  obtain ⟨low, high⟩ := Int32.toIntBounds x
  -- the negation fits exactly when the integer is not the least one
  have fits : (Int32.ofIntChecked? (-x.toInt)).isSome ↔ x.toInt ≠ Int32.minInt := by
    unfold Int32.ofIntChecked? Int32.minInt Int32.maxInt
    by_cases least : x.toInt = -2147483648
    · simp [least]
    · simp only [if_pos (show -2147483648 ≤ -x.toInt ∧ -x.toInt ≤ 2147483647 by omega)]
      simpa using least
  have widened : Int32.ofIntChecked? (-x.toInt) = none →
      unary .neg (.int x) = .ok (.float (Binary64.ofInt (-x.toInt))) := fun wide => by
    simp only [unary, wide, pureOk]
  refine ⟨fun r => ?_, fun least => ?_⟩
  · rcases checked : Int32.ofIntChecked? (-x.toInt) with _ | s
    · have least : x.toInt = Int32.minInt := by simpa [checked] using fits
      simp [widened checked, least]
    · have negated := Int32.ofIntCheckedSome.mp checked
      rw [checked] at fits
      simp only [unary, checked, pureOk, Except.ok.injEq, Value.int.injEq]
      constructor
      · rintro rfl
        exact ⟨fits.mp rfl, negated⟩
      · rintro ⟨-, same⟩
        exact Int32.toInt_inj.mp (negated.trans same.symm)
  · have wide : Int32.ofIntChecked? (-x.toInt) = none := by
      simpa [least] using fits
    rw [widened wide, least]
    rfl

/-- Integer arithmetic is exact or widens, never wraps: an arithmetic operator on two integers
gives an integer exactly when the mathematical result is a whole number of 32 bits, and then
that number; division by zero fails; every other result is a float; and an empty operand gives
the empty value. Negation is exact except at the least integer, where it gives the float `2^31`. -/
theorem integerArithmeticNeverWraps (n : Names) (x y : Int32) :
    (∀ op : BinaryOp, op.IsArithmetic →
      (∀ r : Int32, binary n op (.int x) (.int y) = .ok (.int r) ↔
        op.wholeResult x.toInt y.toInt = some r.toInt) ∧
      (op = .div → y = 0 → binary n op (.int x) (.int y) = .error .divisionByZero) ∧
      ((¬∃ r : Int32, op.wholeResult x.toInt y.toInt = some r.toInt) → (op = .div → y ≠ 0) →
        ∃ f, binary n op (.int x) (.int y) = .ok (.float f)) ∧
      ∀ v : Value, binary n op .empty v = .ok .empty ∧ binary n op v .empty = .ok .empty) ∧
    (∀ r : Int32, unary .neg (.int x) = .ok (.int r) ↔ x.toInt ≠ Int32.minInt ∧ r.toInt = -x.toInt) ∧
    (x.toInt = Int32.minInt → unary .neg (.int x) = .ok (.float (Binary64.ofInt 2147483648))) ∧
    unary .neg .empty = .ok .empty := by
  refine ⟨fun op arith => ⟨fun r => ?_, fun div zero => ?_, fun whole nonzero => ?_, fun v => ?_⟩,
    (negInt x).1, (negInt x).2, rfl⟩
  · rw [binaryInts n arith]
    by_cases divZero : op = .div ∧ y = 0
    · obtain ⟨rfl, rfl⟩ := divZero
      simp [arithmeticDivZero, BinaryOp.wholeResult]
    -- otherwise an integer comes exactly from the exact result
    have nonzero : op = .div → y ≠ 0 := fun div zero => divZero ⟨div, zero⟩
    rw [← exactIntSome arith nonzero]
    rcases exact : exactInt op x y with _ | s
    · obtain ⟨f, widened⟩ := arithmeticWidens arith x y nonzero exact
      simp [widened]
    · simp [arithmeticExact x y nonzero exact]
  · subst div zero
    rw [binaryInts n arith, arithmeticDivZero]
  · have inexact : exactInt op x y = none := by
      rcases exact : exactInt op x y with _ | s
      · rfl
      · exact absurd ⟨s, (exactIntSome arith nonzero).mp exact⟩ whole
    rw [binaryInts n arith]
    exact arithmeticWidens arith x y nonzero inexact
  · simp [binaryOfArithmetic n arith, Value.isEmpty]

/-- The greatest integer plus one widens to a float, and six divided by three is the integer
two. -/
theorem overflowWidensQuotientStays :
    let names : Names := ⟨fun _ => "", fun _ => "", fun _ => ""⟩
    (∃ f, binary names .add (.int 2147483647) (.int 1) = .ok (.float f)) ∧
      binary names .div (.int 6) (.int 3) = .ok (.int 2) := by
  intro names
  have add := (integerArithmeticNeverWraps names 2147483647 1).1 .add (.inl rfl)
  have div := (integerArithmeticNeverWraps names 6 3).1 .div (.inr (.inr (.inr rfl)))
  refine ⟨add.2.2.1 (fun ⟨r, whole⟩ => ?_) (fun sum => by cases sum), (div.1 2).mpr (by decide)⟩
  have high := (Int32.toIntBounds r).2
  have sum : (2147483647 : Int32).toInt + (1 : Int32).toInt = r.toInt := by
    simpa [BinaryOp.wholeResult] using whole
  have values : (2147483647 : Int32).toInt + (1 : Int32).toInt = 2147483648 := by decide
  omega

end Operation

end ScriptEngine
