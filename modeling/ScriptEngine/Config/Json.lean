/-!
JSON documents as settings text, read in one pass straight into a record, by the strict
grammar: whitespace is space, tab, line feed and carriage return; numbers have no leading
zeros, no `+` and a digit after a point or exponent mark; strings take the standard escapes
and no raw control characters; nothing but whitespace follows the document. A record is read
from an object, whose members name its fields, or from an array, whose items give them in
order; a member that names no field is skipped with its form checked to any depth, and only
a string that names a field must be proper text. A number written without point or exponent
is an integer when it fits in 64 bits (`-0` does not), and any other number a fraction.
-/
namespace ScriptEngine.Config

inductive JsonNumber where
  | integer (v : Int)
  | fraction
  deriving DecidableEq, Repr

def isBlank (c : Char) : Bool := c == ' ' || c == '\t' || c == '\n' || c == '\r'

def skipBlank (cs : List Char) : List Char := cs.dropWhile isBlank

/-- Reading a part of a document gives the part and the text after it, or nothing. -/
abbrev Reading (α : Type) := Option (α × List Char)

def digitValue (ds : List Char) : Nat := ds.foldl (fun acc c => 10 * acc + (c.toNat - '0'.toNat)) 0

/-- A number token, after an optional minus sign. -/
def readNumber (cs : List Char) : Reading JsonNumber :=
  let (neg, cs) := match cs with
    | '-' :: rest => (true, rest)
    | _ => (false, cs)
  let (whole, rest) := cs.span Char.isDigit
  match whole with
  | [] => none
  | d :: more =>
    if d == '0' && !more.isEmpty then none
    else
      let (fracOk, isFrac, rest) := match rest with
        | '.' :: after =>
          let (fs, after) := after.span Char.isDigit
          (!fs.isEmpty, true, after)
        | _ => (true, false, rest)
      let (expOk, isExp, rest) := match rest with
        | c :: after =>
          if c == 'e' || c == 'E' then
            let after := match after with
              | '+' :: a => a
              | '-' :: a => a
              | a => a
            let (es, after) := after.span Char.isDigit
            (!es.isEmpty, true, after)
          else (true, false, rest)
        | [] => (true, false, rest)
      if !fracOk || !expOk then none
      else if isFrac || isExp then some (.fraction, rest)
      else
        let v := digitValue whole
        if neg then
          if v == 0 || v > Nat.pow 2 63 then some (.fraction, rest) else some (.integer (-(v : Int)), rest)
        else if v ≥ Nat.pow 2 64 then some (.fraction, rest)
        else some (.integer v, rest)

def hexValue? (c : Char) : Option Nat :=
  if c.isDigit then some (c.toNat - '0'.toNat)
  else if 'a' ≤ c && c ≤ 'f' then some (c.toNat - 'a'.toNat + 10)
  else if 'A' ≤ c && c ≤ 'F' then some (c.toNat - 'A'.toNat + 10)
  else none

def readHex4 : List Char → Option (Nat × List Char)
  | a :: b :: c :: d :: rest => do
    let a ← hexValue? a
    let b ← hexValue? b
    let c ← hexValue? c
    let d ← hexValue? d
    some (((a * 16 + b) * 16 + c) * 16 + d, rest)
  | _ => none

/-- A `\u` escape, after the `u`. In proper text a surrogate must be the first of a pair;
in text that is only skipped (`lenient`), any four hex digits pass. -/
def readUnicodeEscape (lenient : Bool) (cs : List Char) : Option (Char × List Char) := do
  let (hi, rest) ← readHex4 cs
  if lenient then some (Char.ofNat hi, rest)
  else if 0xD800 ≤ hi ∧ hi < 0xDC00 then
    match rest with
    | '\\' :: 'u' :: more =>
      let (lo, rest) ← readHex4 more
      if 0xDC00 ≤ lo ∧ lo < 0xE000 then
        some (Char.ofNat (0x10000 + (hi - 0xD800) * 0x400 + (lo - 0xDC00)), rest)
      else none
    | _ => none
  else if 0xDC00 ≤ hi ∧ hi < 0xE000 then none
  else some (Char.ofNat hi, rest)

/-- The characters of a string up to its closing quote, after the opening one; `fuel`
bounds the recursion by the length of the text. -/
def readStringBody (lenient : Bool) : Nat → List Char → List Char → Reading String
  | 0, _, _ => none
  | _ + 1, [], _ => none
  | fuel + 1, c :: rest, acc =>
    if c == '"' then some (String.ofList acc.reverse, rest)
    else if c == '\\' then
      match rest with
      | '"' :: more => readStringBody lenient fuel more ('"' :: acc)
      | '\\' :: more => readStringBody lenient fuel more ('\\' :: acc)
      | '/' :: more => readStringBody lenient fuel more ('/' :: acc)
      | 'b' :: more => readStringBody lenient fuel more ('\x08' :: acc)
      | 'f' :: more => readStringBody lenient fuel more ('\x0c' :: acc)
      | 'n' :: more => readStringBody lenient fuel more ('\n' :: acc)
      | 'r' :: more => readStringBody lenient fuel more ('\r' :: acc)
      | 't' :: more => readStringBody lenient fuel more ('\t' :: acc)
      | 'u' :: more =>
        match readUnicodeEscape lenient more with
        | some (c, more) => readStringBody lenient fuel more (c :: acc)
        | none => none
      | _ => none
    else if c.toNat < 0x20 then none
    else readStringBody lenient fuel rest (c :: acc)

/-- A string after its opening quote; `fuel` is at least the length of the text. -/
def readString (lenient : Bool) (fuel : Nat) (cs : List Char) : Reading String :=
  readStringBody lenient fuel cs []

/-- An object key in skipped text, with the colon after it. -/
def skipKey (fuel : Nat) (cs : List Char) : Option (List Char) :=
  match skipBlank cs with
  | '"' :: rest =>
    match readString true fuel rest with
    | some (_, rest) =>
      match skipBlank rest with
      | ':' :: rest => some rest
      | _ => none
    | none => none
  | _ => none

/-- A value that holds no other value: a literal name, a string or a number. -/
def skipScalar (fuel : Nat) : List Char → Option (List Char)
  | 'n' :: 'u' :: 'l' :: 'l' :: rest => some rest
  | 't' :: 'r' :: 'u' :: 'e' :: rest => some rest
  | 'f' :: 'a' :: 'l' :: 's' :: 'e' :: rest => some rest
  | '"' :: rest => (readString true fuel rest).map (·.2)
  | cs => (readNumber cs).map (·.2)

/-- An array or object still open while skipped text is read. -/
inductive Bracket where
  | array
  | object
  deriving DecidableEq, Repr

/-- Skips values, checking their form only. `stack` holds the brackets still open, innermost
first; `wantValue` says whether a value comes next or else a comma or a closing bracket.
The open brackets are kept in a list rather than in the recursion, so that nesting has no
limit; `fuel` bounds the steps by the length of the text. -/
def skipFrom : Nat → (wantValue : Bool) → List Bracket → List Char → Option (List Char)
  | 0, _, _, _ => none
  | fuel + 1, true, stack, cs =>
    match skipBlank cs with
    | '[' :: rest =>
      match skipBlank rest with
      | ']' :: more => skipFrom fuel false stack more
      | _ => skipFrom fuel true (.array :: stack) rest
    | '{' :: rest =>
      match skipBlank rest with
      | '}' :: more => skipFrom fuel false stack more
      | _ =>
        match skipKey fuel rest with
        | some rest => skipFrom fuel true (.object :: stack) rest
        | none => none
    | cs =>
      match skipScalar fuel cs with
      | some rest => skipFrom fuel false stack rest
      | none => none
  | fuel + 1, false, stack, cs =>
    match stack with
    | [] => some cs
    | b :: outer =>
      match skipBlank cs, b with
      | ',' :: more, .array => skipFrom fuel true stack more
      | ',' :: more, .object =>
        match skipKey fuel more with
        | some rest => skipFrom fuel true stack rest
        | none => none
      | ']' :: more, .array => skipFrom fuel false outer more
      | '}' :: more, .object => skipFrom fuel false outer more
      | _, _ => none

def skipValue (cs : List Char) : Option (List Char) :=
  skipFrom (cs.length + 1) true [] cs

/-- Reads the members of an object into a record, from its first member on. `field k`
reads the value of a key `k` that names a field, which may stand at most once; the values
of other keys are skipped. -/
def readMembers {α : Type} (field : String → Option (α → List Char → Reading α)) :
    Nat → List String → α → List Char → Reading α
  | 0, _, _, _ => none
  | fuel + 1, seen, r, cs =>
    match skipBlank cs with
    | '"' :: rest =>
      match readString false fuel rest with
      | none => none
      | some (key, rest) =>
        match skipBlank rest with
        | ':' :: rest =>
          let value : Reading α := match field key with
            | none => (skipValue rest).map fun rest => (r, rest)
            | some read => if seen.contains key then none else read r rest
          match value with
          | none => none
          | some (r, rest) =>
            let seen := if (field key).isSome then key :: seen else seen
            match skipBlank rest with
            | ',' :: more => readMembers field fuel seen r more
            | '}' :: more => some (r, more)
            | _ => none
        | _ => none
    | _ => none

/-- Reads an object into a record, after its `{`. -/
def readObject {α : Type} (field : String → Option (α → List Char → Reading α)) (r : α)
    (cs : List Char) : Reading α :=
  match skipBlank cs with
  | '}' :: more => some (r, more)
  | _ => readMembers field (cs.length + 1) [] r cs

/-- Reads an array into a record, after its `[` (`first`) or after an item: the readers of
`items` take the items in order. The array may end before its readers do, never after. -/
def readItems {α : Type} : List (α → List Char → Reading α) → Bool → α → List Char → Reading α
  | [], _, r, cs =>
    match skipBlank cs with
    | ']' :: more => some (r, more)
    | _ => none
  | item :: items, first, r, cs =>
    match skipBlank cs with
    | ']' :: more => some (r, more)
    | ',' :: more =>
      if first then none
      else
        match item r more with
        | some (r, rest) => readItems items false r rest
        | none => none
    | cs =>
      if first then
        match item r cs with
        | some (r, rest) => readItems items false r rest
        | none => none
      else none

def readRecord {α : Type} (field : String → Option (α → List Char → Reading α))
    (items : List (α → List Char → Reading α)) (r : α) (cs : List Char) : Reading α :=
  match skipBlank cs with
  | '{' :: rest => readObject field r rest
  | '[' :: rest => readItems items true r rest
  | _ => none

def readInteger (cs : List Char) : Reading Int :=
  match readNumber (skipBlank cs) with
  | some (.integer v, rest) => some (v, rest)
  | _ => none

/-- A whole document read by `read`, with nothing after it but whitespace. -/
def readDocument {α : Type} (read : List Char → Reading α) (text : String) : Option α :=
  match read text.toList with
  | some (v, rest) => if (skipBlank rest).isEmpty then some v else none
  | none => none

end ScriptEngine.Config
