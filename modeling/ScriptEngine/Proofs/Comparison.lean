import Mathlib.Data.String.Basic
import ScriptEngine.Proofs.IntegerArithmetic
/-!
The comparison operators agree with each other. Two strings, or two numbers none of which is
NaN, stand in one ordering: `cmplt`, `cmple`, `cmpgt` and `cmpge` read it, `cmpeq` is its
`eq` and `cmpne` the negation of `cmpeq`, swapping the operands swaps it, and `cmplt` is
transitive. Strings compare by code points; binary64 numbers as IEEE 754 compares them, read
off the bits: a number's place is its magnitude, negated when the sign is set, so that both
zeros meet and only NaN is out of order. An integer compares as its binary64 value, which is
never NaN. An empty operand makes every ordering operator empty and is equal only to itself.
-/
namespace ScriptEngine

namespace Binary64

theorem exponentOfParts {E F : Nat} (fits : E < 2048) (fraction : F < 2 ^ 52) :
    exponentField ⟨(E.toUInt64 <<< 52) ||| F.toUInt64⟩ = E := by
  unfold exponentField
  have exp : E.toUInt64.toNat = E := UInt64.toNat_ofNat_of_lt' (by unfold UInt64.size; omega)
  have frac : F.toUInt64.toNat = F := UInt64.toNat_ofNat_of_lt' (by unfold UInt64.size; omega)
  have shift : (52 : UInt64).toNat % 64 = 52 := rfl
  have mask : (2047 : UInt64).toNat = 2 ^ 11 - 1 := rfl
  simp only [UInt64.toNat_and, UInt64.toNat_or, UInt64.toNat_shiftLeft, UInt64.toNat_shiftRight, exp, frac]
  have low : E <<< 52 < 2 ^ 64 := by rw [Nat.shiftLeft_eq]; omega
  -- the fraction sits below the exponent, so the two add up without carries
  rw [shift, mask, Nat.mod_eq_of_lt low, ← Nat.shiftLeft_add_eq_or_of_lt fraction,
    Nat.and_two_pow_sub_one_eq_mod, Nat.shiftRight_eq_div_pow, Nat.shiftLeft_eq]
  have : (E * 2 ^ 52 + F) / 2 ^ 52 = E := by omega
  omega

theorem signMaskBelow {k : Nat} (below : k < 63) : signMask.toBitVec.getLsbD k = false := by
  have : signMask.toBitVec = BitVec.twoPow 64 63 := rfl
  rw [this, BitVec.getLsbD_twoPow]
  simp only [Bool.and_eq_false_iff, decide_eq_false_iff_not]
  omega

theorem lowMaskAbove {n k : Nat} (inside : k < 64) (above : n ≤ k) :
    (BitVec.ofNat 64 (2 ^ n - 1))[k] = false := by
  rw [← BitVec.getLsbD_eq_getElem inside, BitVec.getLsbD_ofNat, Nat.testBit_two_pow_sub_one]
  simp only [Bool.and_eq_false_iff, decide_eq_false_iff_not]
  omega

theorem negExponent (x : Binary64) : x.neg.exponentField = x.exponentField := by
  unfold neg exponentField
  congr 1
  show ((x.bits ^^^ signMask) >>> 52) &&& (0x7FF : UInt64) = (x.bits >>> 52) &&& (0x7FF : UInt64)
  apply UInt64.toBitVec_inj.mp
  simp only [UInt64.toBitVec_and, UInt64.toBitVec_xor, UInt64.toBitVec_shiftRight]
  ext i hi
  simp only [BitVec.getElem_and]
  by_cases inField : i < 11
  · -- the exponent field lies below the sign bit
    simp [signMaskBelow (show 52 + i < 63 by omega)]
  · have outside : (2047#64)[i] = false := lowMaskAbove (n := 11) hi (Nat.le_of_not_lt inField)
    simp [outside]

theorem negFraction (x : Binary64) : x.neg.fraction = x.fraction := by
  unfold neg fraction
  congr 1
  show (x.bits ^^^ signMask) &&& (0xFFFFFFFFFFFFF : UInt64) = x.bits &&& (0xFFFFFFFFFFFFF : UInt64)
  apply UInt64.toBitVec_inj.mp
  simp only [UInt64.toBitVec_and, UInt64.toBitVec_xor]
  ext i hi
  simp only [BitVec.getElem_and]
  by_cases inField : i < 52
  · have sign := signMaskBelow (show i < 63 by omega)
    rw [BitVec.getLsbD_eq_getElem hi] at sign
    simp [sign]
  · have outside : (4503599627370495#64)[i] = false := lowMaskAbove (n := 52) hi (Nat.le_of_not_lt inField)
    simp [outside]

theorem negIsNaN (x : Binary64) : x.neg.isNaN = x.isNaN := by
  simp only [isNaN, negExponent, negFraction]

theorem ofIntNotNaN {i : Int} (small : i.natAbs < 2 ^ 53) : (ofInt i).isNaN = false := by
  have whole : (nearest i.natAbs 1).isNaN = false := by
    rcases Nat.eq_zero_or_pos i.natAbs with zero | pos
    · -- zero is held as the bits of `+0`
      have log0 : Nat.log2 0 = 0 := Nat.log2_zero
      have log1 : Nat.log2 1 = 0 := @Nat.log2_two_pow 0
      rw [zero]
      unfold nearest
      simp only [log0, log1]
      decide
    · have top : Nat.log2 i.natAbs < 53 := (Nat.log2_lt (Nat.ne_of_gt pos)).mpr small
      have significand := wholeSignificand pos small
      rw [nearestWhole pos small]
      unfold isNaN
      rw [exponentOfParts (by omega) (by omega)]
      simp only [Bool.and_eq_false_iff, beq_eq_false_iff_ne]
      exact .inl (by omega)
  unfold ofInt
  split
  · rw [negIsNaN, whole]
  · exact whole

variable {x y : Binary64}

theorem ltOfNumbers (hx : x.isNaN = false) (hy : y.isNaN = false) :
    x.lt y = decide (x.ordinal < y.ordinal) := by
  simp [lt, hx, hy]

theorem numEqOfNumbers (hx : x.isNaN = false) (hy : y.isNaN = false) :
    x.numEq y = (x.ordinal == y.ordinal) := by
  simp [numEq, hx, hy]

end Binary64

namespace Value

/-- An integer, or a float that is not NaN. -/
def Numeric (v : Value) : Prop := (∃ i, v = .int i) ∨ ∃ x, v = .float x ∧ x.isNaN = false

/-- Two values the ordering operators compare: two strings, or two numbers of which neither is
NaN, integers and floats mixed as they come. -/
def Comparable (a b : Value) : Prop := (∃ x y, a = .str x ∧ b = .str y) ∨ (a.Numeric ∧ b.Numeric)

variable {a b c v : Value}

theorem Numeric.number (numeric : v.Numeric) : ∃ x, v.asNumber = some x ∧ x.isNaN = false := by
  rcases numeric with ⟨i, rfl⟩ | ⟨x, rfl, notNaN⟩
  · refine ⟨_, rfl, Binary64.ofIntNotNaN ?_⟩
    have := Int32.toIntBounds i
    omega
  · exact ⟨x, rfl, notNaN⟩

theorem Numeric.notNaN {x : Binary64} (numeric : v.Numeric) (found : v.asNumber = some x) :
    x.isNaN = false := by
  obtain ⟨x', found', notNaN⟩ := numeric.number
  cases found.symm.trans found'
  exact notNaN

theorem Numeric.notStr (numeric : v.Numeric) (s : String) : v ≠ .str s := by
  rcases numeric with ⟨i, rfl⟩ | ⟨x, rfl, -⟩ <;> simp

theorem Numeric.nonempty (numeric : v.Numeric) : v.isEmpty = false := by
  rcases numeric with ⟨i, rfl⟩ | ⟨x, rfl, -⟩ <;> rfl

theorem Comparable.symm (comparable : Comparable a b) : Comparable b a := by
  rcases comparable with ⟨x, y, rfl, rfl⟩ | ⟨na, nb⟩
  · exact .inl ⟨y, x, rfl, rfl⟩
  · exact .inr ⟨nb, na⟩

theorem Comparable.trans (ab : Comparable a b) (bc : Comparable b c) : Comparable a c := by
  rcases ab with ⟨x, y, rfl, rfl⟩ | ⟨na, nb⟩
  · rcases bc with ⟨y', z, -, rfl⟩ | ⟨nb, -⟩
    · exact .inl ⟨x, z, rfl, rfl⟩
    · exact absurd rfl (nb.notStr y)
  · rcases bc with ⟨y, z, rfl, rfl⟩ | ⟨-, nc⟩
    · exact absurd rfl (nb.notStr y)
    · exact .inr ⟨na, nc⟩

theorem Comparable.nonempty (comparable : Comparable a b) : a.isEmpty = false ∧ b.isEmpty = false := by
  rcases comparable with ⟨x, y, rfl, rfl⟩ | ⟨na, nb⟩
  · exact ⟨rfl, rfl⟩
  · exact ⟨na.nonempty, nb.nonempty⟩

end Value

namespace BinaryOp

/-- The operators that order their operands. -/
def IsOrdering (op : BinaryOp) : Prop := op = .lt ∨ op = .le ∨ op = .gt ∨ op = .ge

end BinaryOp

namespace Operation

open Value

variable {a b c : Value}

/-- How `a` stands to `b`: every ordering operator reads the ordering `o`, the other way round
they read its swap, and equality is `o`'s `eq`. -/
structure Stand (a b : Value) (o : Ordering) : Prop where
  ordered : ∀ op, order op a b = .ok o
  swapped : ∀ op, order op b a = .ok o.swap
  equal : equals a b = (o == .eq)

theorem standStrings (x y : String) : Stand (.str x) (.str y) (compare x y) where
  ordered _ := rfl
  swapped _ := by
    show Except.ok (compare y x) = _
    rw [Std.OrientedOrd.eq_swap]
  equal := by
    show (x == y) = _
    by_cases same : x = y
    · simp [same]
    · simp [same]

theorem orderNumbers {x y : Binary64} (hx : x.isNaN = false) (hy : y.isNaN = false) (e : Fault) :
    (if (x.isNaN || y.isNaN) = true then (throw e : Except Fault Ordering)
      else if x.lt y = true then pure .lt else if x.numEq y = true then pure .eq else pure .gt) =
      .ok (compare x.ordinal y.ordinal) := by
  simp only [hx, hy, Bool.or_false, Bool.false_eq_true, if_false, Binary64.ltOfNumbers hx hy,
    Binary64.numEqOfNumbers hx hy, decide_eq_true_eq, beq_iff_eq]
  rcases lt_trichotomy x.ordinal y.ordinal with less | same | more
  · rw [if_pos less, compare_lt_iff_lt.mpr less]
    rfl
  · rw [if_neg (lt_irrefl _ |> fun h => same ▸ h), if_pos same, compare_eq_iff_eq.mpr same]
    rfl
  · rw [if_neg (lt_asymm more), if_neg (ne_of_gt more), compare_gt_iff_gt.mpr more]
    rfl

variable {x y z : Binary64}

theorem numericOrder (na : a.Numeric) (nb : b.Numeric) (fx : a.asNumber = some x)
    (fy : b.asNumber = some y) (op : BinaryOp) : order op a b = .ok (compare x.ordinal y.ordinal) := by
  rw [← orderNumbers (na.notNaN fx) (nb.notNaN fy) (.typeError (.unordered op))]
  rcases na with ⟨i, rfl⟩ | ⟨x', rfl, -⟩ <;> rcases nb with ⟨j, rfl⟩ | ⟨y', rfl, -⟩ <;>
    simp only [order, fx, fy]

theorem numericEquals (na : a.Numeric) (nb : b.Numeric) (fx : a.asNumber = some x)
    (fy : b.asNumber = some y) : equals a b = x.numEq y := by
  rcases na with ⟨i, rfl⟩ | ⟨x', rfl, -⟩ <;> rcases nb with ⟨j, rfl⟩ | ⟨y', rfl, -⟩ <;>
    simp only [equals, fx, fy]

theorem standNumbers (na : a.Numeric) (nb : b.Numeric) : ∃ o, Stand a b o := by
  obtain ⟨x, fx, hx⟩ := na.number
  obtain ⟨y, fy, hy⟩ := nb.number
  refine ⟨compare x.ordinal y.ordinal, numericOrder na nb fx fy, fun op => ?_, ?_⟩
  · rw [numericOrder nb na fy fx op, Std.OrientedOrd.eq_swap]
  · rw [numericEquals na nb fx fy, Binary64.numEqOfNumbers hx hy]
    by_cases same : x.ordinal = y.ordinal
    · simp [same]
    · simp [same]

theorem standOf (comparable : Comparable a b) : ∃ o, Stand a b o := by
  rcases comparable with ⟨x, y, rfl, rfl⟩ | ⟨na, nb⟩
  · exact ⟨_, standStrings x y⟩
  · exact standNumbers na nb

theorem orderTrans (ab : Comparable a b) (bc : Comparable b c) (op : BinaryOp)
    (first : order op a b = .ok .lt) (second : order op b c = .ok .lt) : order op a c = .ok .lt := by
  rcases ab with ⟨x, y, rfl, rfl⟩ | ⟨na, nb⟩
  · rcases bc with ⟨y', z, same, rfl⟩ | ⟨nb, -⟩
    · cases same
      have xy : x < y := compare_lt_iff_lt.mp (Except.ok.inj first)
      have yz : y < z := compare_lt_iff_lt.mp (Except.ok.inj second)
      exact congrArg Except.ok (compare_lt_iff_lt.mpr (lt_trans xy yz))
    · exact absurd rfl (nb.notStr y)
  · rcases bc with ⟨y, z, rfl, rfl⟩ | ⟨-, nc⟩
    · exact absurd rfl (nb.notStr y)
    · obtain ⟨x, fx, -⟩ := na.number
      obtain ⟨y, fy, -⟩ := nb.number
      obtain ⟨z, fz, -⟩ := nc.number
      rw [numericOrder na nb fx fy] at first
      rw [numericOrder nb nc fy fz] at second
      have xy := compare_lt_iff_lt.mp (Except.ok.inj first)
      have yz := compare_lt_iff_lt.mp (Except.ok.inj second)
      rw [numericOrder na nc fx fz]
      exact congrArg Except.ok (compare_lt_iff_lt.mpr (lt_trans xy yz))

/-! ### The operators -/

theorem notGreater (o : Ordering) : (o != .gt) = (o == .lt || o == .eq) := by
  cases o <;> rfl

theorem notLess (o : Ordering) : (o != .lt) = (o == .gt || o == .eq) := by
  cases o <;> rfl

theorem binaryOrders (n : Names) {o : Ordering} (ha : a.isEmpty = false) (hb : b.isEmpty = false)
    (ordered : ∀ op, order op a b = .ok o) :
    binary n .lt a b = .ok (.bool (o == .lt)) ∧ binary n .gt a b = .ok (.bool (o == .gt)) ∧
      binary n .le a b = .ok (.bool (o == .lt || o == .eq)) ∧
      binary n .ge a b = .ok (.bool (o == .gt || o == .eq)) := by
  refine ⟨?_, ?_, ?_, ?_⟩ <;>
    simp only [binary, ha, hb, Bool.or_self, Bool.false_eq_true, if_false, ordered, ← notGreater,
      ← notLess] <;> rfl

theorem binaryEmpty (n : Names) {op : BinaryOp} (ordering : op.IsOrdering) (empty : a = .empty ∨ b = .empty) :
    binary n op a b = .ok .empty := by
  have : (a.isEmpty || b.isEmpty) = true := by
    rcases empty with rfl | rfl <;> simp [Value.isEmpty]
  rcases ordering with rfl | rfl | rfl | rfl <;> simp only [binary, this, if_true] <;> rfl

theorem equalsEmpty (empty : a = .empty ∨ b = .empty) : equals a b = true ↔ a = .empty ∧ b = .empty := by
  rcases empty with rfl | rfl
  · cases b <;> simp [equals, asNumber]
  · cases a <;> simp [equals, asNumber]

theorem orderOfLess (n : Names) (comparable : Comparable a b) (holds : binary n .lt a b = .ok (.bool true)) :
    order .lt a b = .ok .lt := by
  obtain ⟨o, stand⟩ := standOf comparable
  obtain ⟨ha, hb⟩ := comparable.nonempty
  rw [(binaryOrders n ha hb stand.ordered).1] at holds
  have less : o = .lt := by cases o <;> simp_all
  rw [stand.ordered, less]

/-- The comparison operators agree. On two strings, or two numbers none of which is NaN:
`cmplt`, `cmpeq` and `cmpgt` read one ordering, so exactly one of them is true; `cmple` is
`cmplt` or `cmpeq` and `cmpge` is `cmpgt` or `cmpeq`; `cmplt a b` is `cmpgt b a`; and `cmplt`
is transitive. On any values `cmpne` is the negation of `cmpeq`. With an empty operand the
ordering operators give the empty value, and `cmpeq` is true only of two empty values. -/
theorem comparisonsAgree (n : Names) :
    (∀ a b, Comparable a b → ∃ o : Ordering,
      binary n .lt a b = .ok (.bool (o == .lt)) ∧ binary n .eq a b = .ok (.bool (o == .eq)) ∧
      binary n .gt a b = .ok (.bool (o == .gt)) ∧
      binary n .le a b = .ok (.bool (o == .lt || o == .eq)) ∧
      binary n .ge a b = .ok (.bool (o == .gt || o == .eq)) ∧
      binary n .gt b a = .ok (.bool (o == .lt))) ∧
    (∀ a b c, Comparable a b → Comparable b c → binary n .lt a b = .ok (.bool true) →
      binary n .lt b c = .ok (.bool true) → binary n .lt a c = .ok (.bool true)) ∧
    (∀ a b, ∃ t, binary n .eq a b = .ok (.bool t) ∧ binary n .ne a b = .ok (.bool !t)) ∧
    (∀ a b, a = .empty ∨ b = .empty →
      (∀ op : BinaryOp, op.IsOrdering → binary n op a b = .ok .empty) ∧
      (binary n .eq a b = .ok (.bool true) ↔ a = .empty ∧ b = .empty)) := by
  refine ⟨fun a b comparable => ?_, fun a b c ab bc first second => ?_, fun a b => ⟨_, rfl, rfl⟩,
    fun a b empty => ⟨fun op ordering => binaryEmpty n ordering empty, ?_⟩⟩
  · obtain ⟨o, stand⟩ := standOf comparable
    obtain ⟨ha, hb⟩ := comparable.nonempty
    obtain ⟨lt, gt, le, ge⟩ := binaryOrders n ha hb stand.ordered
    -- the other way round the operands stand in the swapped ordering
    have reversed := (binaryOrders n hb ha stand.swapped).2.1
    refine ⟨o, lt, by rw [← stand.equal]; rfl, gt, le, ge, ?_⟩
    rw [reversed]
    cases o <;> rfl
  · -- both steps read `lt`, so both orderings are `lt`, and `lt` is transitive
    have ac := orderTrans ab bc .lt (orderOfLess n ab first) (orderOfLess n bc second)
    obtain ⟨o, stand⟩ := standOf (ab.trans bc)
    have isLt : o = .lt := Except.ok.inj ((stand.ordered .lt).symm.trans ac)
    rw [(binaryOrders n ab.nonempty.1 bc.nonempty.2 stand.ordered).1, isLt]
    rfl
  · rw [show binary n .eq a b = .ok (.bool (equals a b)) from rfl, ← equalsEmpty empty]
    exact ⟨fun holds => Value.bool.inj (Except.ok.inj holds), fun holds => by rw [holds]⟩

end Operation

end ScriptEngine
