import ScriptEngine.Code.Basic
/-!
Listings of a code unit. The disassembly gives one line per instruction, `pc` right-aligned
in five columns and the instruction's text, followed by the literal, name or local variable
its operand designates when there is one; each line-map entry is announced as `; line N`
before the first instruction at or after its index. The summary line counts the tables.
-/
namespace ScriptEngine

namespace Code

def padLeft (s : String) (width : Nat) : String :=
  String.ofList (List.replicate (width - s.length) ' ') ++ s

/-- What an operand designates, in parentheses, or nothing. -/
def operandNote (n : Names) (c : Code) : Instr → String
  | .pushLiteral i => match c.literal? i with
    | some v => "  (" ++ v.literalText n ++ ")"
    | none => ""
  | .pushName i | .storeName i => match c.name? i with
    | some s => "  (" ++ s ++ ")"
    | none => ""
  | .pushLocal i | .storeLocal i | .popLocal i => match c.localName? i with
    | some s => "  (" ++ s ++ ")"
    | none => ""
  | _ => ""

/-- Announcements of the line-map entries from `from` on that start at or before `pc`, and
the first entry left for later. -/
def lineNotes (lines : List (Nat × Nat)) (pc : Nat) : String × List (Nat × Nat) :=
  match lines with
  | (p, l) :: rest =>
    if p ≤ pc then
      let (text, left) := lineNotes rest pc
      ("  ; line " ++ toString l ++ "\n" ++ text, left)
    else ("", lines)
  | [] => ("", [])

def disassemble (n : Names) (c : Code) : String :=
  let step := fun (acc : String × List (Nat × Nat)) (op, pc) =>
    let (notes, left) := lineNotes acc.2 pc
    (acc.1 ++ notes ++ padLeft (toString pc) 5 ++ ": " ++ op.text ++ operandNote n c op ++ "\n",
      left)
  (c.instrs.zipIdx.foldl step ("", c.lines.toList)).1

/-- The diagnostic summary: name and file quoted, then the sizes of the tables. -/
def debugText (c : Code) : String :=
  "CodeObject \x7b name: " ++ Text.quote c.name ++ ", file: " ++ Text.quote c.file ++
    ", instructions: " ++ toString c.size ++ ", literals: " ++ toString c.literals.size ++
    ", names: " ++ toString c.names.size ++ ", locals: " ++ toString c.locals.size ++
    ", labels: " ++ toString c.labelCount ++ " \x7d"

def jumpCount (c : Code) : Nat := (c.instrs.filter Instr.isJump).size

end Code

end ScriptEngine
