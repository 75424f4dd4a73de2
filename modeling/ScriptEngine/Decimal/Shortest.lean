import ScriptEngine.Decimal.Binary64
/-!
Shortest decimal digits of a binary64 number. A finite nonzero number is decoded into an
integer `mant` times `2 ^ exp` together with the interval of reals that read back as it;
for one, two, ... digits the decimal grid at that length is tried around the number, and
the first length with a grid point inside the interval gives the digits (the nearer of the
two neighbours if both are inside). The positional text puts these digits around the
decimal point without an exponent.
-/
namespace ScriptEngine.Decimal

/-- A finite nonzero number `mant * 2 ^ exp` and the interval
`[(mant - minus) * 2 ^ exp, (mant + plus) * 2 ^ exp]` of reals that round to it, whose
ends belong to it when `inclusive` holds. -/
structure Decoded where
  mant : Nat
  minus : Nat
  plus : Nat
  exp : Int
  inclusive : Bool
  deriving DecidableEq, Repr

/-- What a bit pattern stands for, apart from its sign. -/
inductive Magnitude where
  | nan
  | infinite
  | zero
  | finite (d : Decoded)
  deriving DecidableEq, Repr

/-- Decoding: the interval reaches half-way to each neighbour. Below a power of two the
lower neighbour is twice as close, which the wider scale `2 ^ (exp - 2)` expresses; the
ends count as inside when the integer significand is even (for numbers below the normal
range the significand is counted in units of `2 ^ -1075`, and so is always even). -/
def magnitude (x : Binary64) : Magnitude :=
  let e := x.exponentField
  let f := x.fraction
  if e == 0x7FF then (if f == 0 then .infinite else .nan)
  else if e == 0 then
    if f == 0 then .zero
    else .finite ⟨2 * f, 1, 1, -1075, true⟩
  else
    let m := f + Nat.pow 2 52
    let even := m % 2 == 0
    if f == 0 then .finite ⟨4 * m, 1, 2, (e : Int) - 1075 - 2, even⟩
    else .finite ⟨2 * m, 1, 1, (e : Int) - 1075 - 1, even⟩

/-- `(a, b)` with `a / b = 10 ^ k`, both integers. -/
def tenPow (k : Int) : Nat × Nat :=
  if 0 ≤ k then (Nat.pow 10 k.toNat, 1) else (1, Nat.pow 10 (-k).toNat)

/-- `(a, b)` with `a / b = 2 ^ k`, both integers. -/
def twoPow (k : Int) : Nat × Nat :=
  if 0 ≤ k then (Nat.pow 2 k.toNat, 1) else (1, Nat.pow 2 (-k).toNat)

def digitCount (n : Nat) : Nat := (Nat.toDigits 10 n).length

/-- The decimal position of the leading digit: the least `k` with `num / den < 10 ^ k`. -/
def leadingPosition (num den : Nat) : Int :=
  let k : Int := (digitCount num : Int) - digitCount den
  let (a, b) := tenPow k
  if num * b < den * a then k else k + 1

/-- The digits chosen on the grid of `n` significant digits, if a grid point lies in the
interval: `num / den` is the number, `lo` and `hi` its distances to the interval's ends
(over the same `den`), `k` the leading position. -/
def gridHit (num den lo hi : Nat) (inclusive : Bool) (k : Int) (n : Nat) : Option Nat :=
  let (a, b) := tenPow ((n : Int) - k)
  let scaled := num * a
  let unit := den * b
  let q := scaled / unit
  let r := scaled % unit
  let down := if inclusive then r ≤ lo * a else r < lo * a
  let up := if inclusive then unit - r ≤ hi * a else unit - r < hi * a
  if down && up then some (if 2 * r < unit then q else q + 1)
  else if down then some q
  else if up then some (q + 1)
  else none

/-- The first grid, from `n` digits on, that holds a point of the interval; after `fuel`
grids the number rounded to the last grid stands. -/
def firstHit (num den lo hi : Nat) (inclusive : Bool) (k : Int) : Nat → Nat → Nat × Nat
  | n, 0 =>
    let (a, b) := tenPow ((n : Int) - k)
    ((num * a + den * b / 2) / (den * b), n)
  | n, fuel + 1 =>
    match gridHit num den lo hi inclusive k n with
    | some q => (q, n)
    | none => firstHit num den lo hi inclusive k (n + 1) fuel

/-- Digits without their trailing zeros, and how many were removed. -/
def trimZeros : List Nat → List Nat × Nat
  | [] => ([], 0)
  | d :: rest =>
    match trimZeros rest with
    | ([], z) => if d == 0 then ([], z + 1) else ([d], z)
    | (ds, z) => (d :: ds, z)

/-- Shortest digits `ds` (no leading or trailing zero) and position `k` with
`0.ds * 10 ^ k` the decimal that stands for the number. -/
def shortest (d : Decoded) : List Nat × Int :=
  let (a, b) := twoPow d.exp
  let num := d.mant * a
  let den := b
  let k := leadingPosition num den
  let (q, n) := firstHit num den (d.minus * a) (d.plus * a) d.inclusive k 1 17
  let digits := (Nat.toDigits 10 q).map (fun c => c.toNat - '0'.toNat)
  let (ds, _) := trimZeros digits
  (ds, k + ((digits.length : Int) - n))

def digitText (ds : List Nat) : String :=
  String.ofList (ds.map (fun d => Char.ofNat ('0'.toNat + d)))

/-- Digits `0.ds * 10 ^ k` written positionally: leading `0.` and zeros when `k ≤ 0`,
trailing zeros and no point when the digits end before the point. -/
def positional (ds : List Nat) (k : Int) : String :=
  if k ≤ 0 then "0." ++ String.ofList (List.replicate (-k).toNat '0') ++ digitText ds
  else
    let p := k.toNat
    if p < ds.length then digitText (ds.take p) ++ "." ++ digitText (ds.drop p)
    else digitText ds ++ String.ofList (List.replicate (p - ds.length) '0')

/-- The decimal text of a number: the shortest digits that read back, positional, a minus
sign on every negative number (negative zero and infinity included), `NaN` without sign. -/
def text (x : Binary64) : String :=
  let sign := if x.signBit then "-" else ""
  match magnitude x with
  | .nan => "NaN"
  | .infinite => sign ++ "inf"
  | .zero => sign ++ "0"
  | .finite d =>
    let (ds, k) := shortest d
    sign ++ positional ds k

end ScriptEngine.Decimal
