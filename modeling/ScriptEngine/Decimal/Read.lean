import ScriptEngine.Decimal.Binary64
/-!
Reading decimal text as the nearest binary64 number. The accepted forms are an optional
sign followed by `inf`, `infinity` or `nan` in any letter case, or by digits with an
optional point and an optional exponent (`e` or `E`, optional sign, at least one digit);
at least one digit must stand before or after the point. The exact decimal value is
rounded to the nearest binary64 number, a tie going to the even significand; exponents
beyond 65535 in size saturate there.
-/
namespace ScriptEngine.Decimal

/-- A decimal `digits * 10 ^ exponent` read from text. -/
structure Scientific where
  digits : Nat
  exponent : Int
  deriving DecidableEq, Repr

/-- Leading decimal digits: their value, their count and the rest of the text. -/
def readDigits : List Char → Nat → Nat → Nat × Nat × List Char
  | c :: rest, acc, n =>
    if c.isDigit then readDigits rest (10 * acc + (c.toNat - '0'.toNat)) (n + 1)
    else (acc, n, c :: rest)
  | [], acc, n => (acc, n, [])

/-- Exponent digits, which stop growing once the value reaches 65536. -/
def readExponentDigits : List Char → Nat → Nat → Nat × Nat × List Char
  | c :: rest, acc, n =>
    if c.isDigit then
      let acc := if acc < 0x10000 then 10 * acc + (c.toNat - '0'.toNat) else acc
      readExponentDigits rest acc (n + 1)
    else (acc, n, c :: rest)
  | [], acc, n => (acc, n, [])

/-- The exponent part after `e`: optional sign, then at least one digit. -/
def readExponent (cs : List Char) : Option (Int × List Char) :=
  let (neg, cs) := match cs with
    | '-' :: rest => (true, rest)
    | '+' :: rest => (false, rest)
    | _ => (false, cs)
  let (v, n, rest) := readExponentDigits cs 0 0
  if n == 0 then none else some (if neg then -(v : Int) else v, rest)

/-- A whole unsigned decimal numeral. -/
def readScientific (cs : List Char) : Option Scientific :=
  let (whole, nWhole, rest) := readDigits cs 0 0
  let (value, nFrac, rest) := match rest with
    | '.' :: more =>
      let (v, n, more) := readDigits more whole 0
      (v, n, more)
    | _ => (whole, 0, rest)
  if nWhole + nFrac == 0 then none
  else
    match rest with
    | [] => some ⟨value, -(nFrac : Int)⟩
    | c :: more =>
      if c == 'e' || c == 'E' then
        match readExponent more with
        | some (e, []) => some ⟨value, e - nFrac⟩
        | _ => none
      else none

/-- The nearest binary64 number to a decimal; values far outside the range go straight to
infinity or zero. -/
def Scientific.toBinary64 (s : Scientific) : Binary64 :=
  if s.digits == 0 then Binary64.zero
  else
    let size : Int := ((Nat.toDigits 10 s.digits).length : Int) + s.exponent
    if size > 310 then Binary64.infinity
    else if size < -324 then Binary64.zero
    else if 0 ≤ s.exponent then Binary64.nearest (s.digits * Nat.pow 10 s.exponent.toNat) 1
    else Binary64.nearest s.digits (Nat.pow 10 (-s.exponent).toNat)

/-- The special words, compared without regard to letter case. -/
def readSpecial (cs : List Char) : Option Binary64 :=
  match String.ofList (cs.map Char.toLower) with
  | "inf" => some Binary64.infinity
  | "infinity" => some Binary64.infinity
  | "nan" => some Binary64.nan
  | _ => none

/-- Reads a number; `none` if the text is not one of the accepted forms. -/
def read? (text : String) : Option Binary64 :=
  let (neg, cs) := match text.toList with
    | '-' :: rest => (true, rest)
    | '+' :: rest => (false, rest)
    | cs => (false, cs)
  if cs.isEmpty then none
  else
    let value := match readScientific cs with
      | some s => some s.toBinary64
      | none => readSpecial cs
    value.map (fun x => if neg then x.neg else x)

end ScriptEngine.Decimal
