import ScriptEngine.Text.Printable
import ScriptEngine.Text.GraphemeExtend
/-!
Quoted strings: the text between double quotes, where NUL, tab, carriage return, line
feed, backslash and the double quote are written with a backslash, grapheme extenders and
characters that are not printable as `\u{hex}` with lowercase digits, and every other
character (the single quote included) as itself.
-/
namespace ScriptEngine.Text

def hexDigits (n : Nat) : String := String.ofList (Nat.toDigits 16 n)

/-- The written form of one character inside quotes. -/
def escapeChar (c : Char) : String :=
  match c with
  | '\x00' => "\\0"
  | '\t' => "\\t"
  | '\r' => "\\r"
  | '\n' => "\\n"
  | '\\' => "\\\\"
  | '"' => "\\\""
  | c =>
    if isGraphemeExtend c || !isPrintable c then "\\u\x7b" ++ hexDigits c.toNat ++ "\x7d"
    else c.toString

/-- A string between double quotes with its characters escaped. -/
def quote (s : String) : String :=
  "\"" ++ String.join (s.toList.map escapeChar) ++ "\""

end ScriptEngine.Text
