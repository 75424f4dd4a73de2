import ScriptEngine.Code.Basic
/-!
Appending one code unit to another. The second unit's literals, names and locals join the
first's tables (shared entries are reused), its operands are renumbered into those tables,
its labels are shifted past the first unit's labels (label numbers stay 16-bit and wrap),
its jumps by index past the first unit's instructions, and its line map follows. Jump
targets are 32-bit and the shifted ones wrap past `2^32 - 1`; instruction indices, and so the
line map's, are taken to stay below `2^32`. If the labels would not fit nothing changes; if a
table fills up, the entries added before stay.
-/
namespace ScriptEngine

namespace Code

/-- Adds each entry in turn, collecting the indices; stops at the first full table and
keeps what was added before it. -/
def addAll {α : Type} (add : Code → α → Code × Except TableFull Nat) :
    Code → List α → Code × Except TableFull (Array Nat)
  | c, [] => (c, .ok #[])
  | c, x :: xs =>
    match add c x with
    | (c, .error e) => (c, .error e)
    | (c, .ok i) =>
      match addAll add c xs with
      | (c, .ok is) => (c, .ok (#[i] ++ is))
      | (c, .error e) => (c, .error e)

/-- An index through a renumbering table; indices outside it stay as they are. -/
def renumber (table : Array Nat) (i : Nat) : Nat := table[i]?.getD i

/-- An instruction of an appended unit with its operands renumbered: table operands through
the merge tables, labels moved past `labelBase` (label numbers are 16-bit and wrap), jumps by
label past `labelBase` and jumps by index past `offset` (targets are 32-bit and wrap). -/
def moveInstr (lits names locals : Array Nat) (labelBase offset : Nat) : Instr → Instr
  | .pushLiteral i => .pushLiteral (renumber lits i)
  | .pushName i => .pushName (renumber names i)
  | .storeName i => .storeName (renumber names i)
  | .pushLocal i => .pushLocal (renumber locals i)
  | .storeLocal i => .storeLocal (renumber locals i)
  | .popLocal i => .popLocal (renumber locals i)
  | .label id => .label ((id + labelBase) % 65536)
  | .jump j =>
    .jump { j with target := (j.target + if j.symbolic then labelBase else offset) % 4294967296 }
  | op => op

/-- The line map of the first unit followed by the second's, shifted by `offset`; an entry
at the index where the first map ends takes the second's line. -/
def appendLines (lines more : Array (Nat × Nat)) (offset : Nat) : Array (Nat × Nat) :=
  more.foldl (fun acc (pc, line) =>
    let p := pc + offset
    match acc.back? with
    | some (q, _) => if q == p then acc.pop.push (p, line) else acc.push (p, line)
    | none => acc.push (p, line)) lines

/-- `c` followed by `other`, and the table that filled up, if one did. -/
def append (c other : Code) : Code × Option TableFull :=
  if c.labelCount + other.labelCount > labelLimit then (c, some .labels)
  else
    let offset := c.size
    let labelBase := c.labelCount
    match addAll addLiteral c other.literals.toList with
    | (c, .error e) => (c, some e)
    | (c, .ok lits) =>
    match addAll addName c other.names.toList with
    | (c, .error e) => (c, some e)
    | (c, .ok names) =>
    match addAll addLocal c other.locals.toList with
    | (c, .error e) => (c, some e)
    | (c, .ok locals) =>
      ({ c with
        instrs := c.instrs ++ other.instrs.map (moveInstr lits names locals labelBase offset)
        labelCount := c.labelCount + other.labelCount
        lines := appendLines c.lines other.lines offset }, none)

end Code

end ScriptEngine
