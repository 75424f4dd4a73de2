import Std.Data.HashMap
import ScriptEngine.Value
import ScriptEngine.Code.Instr
/-!
Code units: the body of one subroutine. A unit holds its instructions, a literal pool with
one entry per distinct literal, a table of names (looked up in contexts at run time), the
names of its local variables, a count of allocated labels, a sparse line map from
instruction index to source line, and its signature. Tables hold at most 65536 entries and
at most 65535 labels can be allocated; building operations answer `TableFull` past that.
The line map's indices are 32-bit: a unit is taken to hold fewer than `2^32` instructions, so
the index `addLine` records is exact, while `lineFor?` is asked with any index and reads
only its low 32 bits.
-/
namespace ScriptEngine

inductive TableFull where
  | literals
  | names
  | locals
  | labels
  deriving DecidableEq, Repr

def TableFull.message : TableFull → String
  | .literals => "Too many literals (limit 65536)"
  | .names => "Too many names (limit 65536)"
  | .locals => "Too many local variables (limit 65536)"
  | .labels => "Too many labels (limit 65535)"

def tableLimit : Nat := 65536

def labelLimit : Nat := 65535

structure Code where
  instrs : Array Instr := #[]
  literals : Array Value := #[]
  names : Array String := #[]
  /-- Position of each name in `names`, for the lookup that shares an entry. -/
  nameIndex : Std.HashMap String Nat := {}
  locals : Array String := #[]
  labelCount : Nat := 0
  /-- Pairs `(pc, line)` with ascending `pc`: the line of every instruction from `pc` on. -/
  lines : Array (Nat × Nat) := #[]
  name : String := ""
  file : String := ""
  minArgs : Nat := 0
  maxArgs : Nat := 0
  varargs : Bool := false
  procedure : Bool := true

namespace Code

/-- A fresh unit: no instructions, empty tables, a procedure. -/
def empty : Code := {}

def size (c : Code) : Nat := c.instrs.size

def instr? (c : Code) (pc : Nat) : Option Instr := c.instrs[pc]?

def literal? (c : Code) (i : Nat) : Option Value := c.literals[i]?

def name? (c : Code) (i : Nat) : Option String := c.names[i]?

def localName? (c : Code) (i : Nat) : Option String := c.locals[i]?

def addInstr (c : Code) (op : Instr) : Code × Nat :=
  let i := c.instrs.size
  ({ c with instrs := c.instrs.push op }, i)

/-- The index of a literal equal to `v` by `Value.sameLiteral`, added if there is none.
This and the other additions answer the unit after the attempt (unchanged when the table is
full) and the index or the full table. -/
def addLiteral (c : Code) (v : Value) : Code × Except TableFull Nat :=
  match c.literals.findIdx? (fun w => w.sameLiteral v) with
  | some i => (c, .ok i)
  | none =>
    let i := c.literals.size
    if i ≥ tableLimit then (c, .error .literals)
    else ({ c with literals := c.literals.push v }, .ok i)

/-- Adds the literal and an instruction pushing it; the instruction's index. -/
def addPushLiteral (c : Code) (v : Value) : Code × Except TableFull Nat :=
  match c.addLiteral v with
  | (c, .ok i) =>
    let (c, pc) := c.addInstr (.pushLiteral i)
    (c, .ok pc)
  | (c, .error e) => (c, .error e)

/-- A conditional jump to a label, not popping. -/
def addJump (c : Code) (cond : JumpCondition) (label : Nat) : Code × Nat :=
  c.addInstr (.jump ⟨cond, false, true, label⟩)

def addLabel (c : Code) (label : Nat) : Code × Nat := c.addInstr (.label label)

def makeLabel (c : Code) : Code × Except TableFull Nat :=
  let l := c.labelCount
  if l ≥ labelLimit then (c, .error .labels)
  else ({ c with labelCount := l + 1 }, .ok l)

def addName (c : Code) (n : String) : Code × Except TableFull Nat :=
  match c.nameIndex[n]? with
  | some i => (c, .ok i)
  | none =>
    let i := c.names.size
    if i ≥ tableLimit then (c, .error .names)
    else ({ c with names := c.names.push n, nameIndex := c.nameIndex.insert n i }, .ok i)

def localIndex? (c : Code) (n : String) : Option Nat := c.locals.findIdx? (· == n)

def addLocal (c : Code) (n : String) : Code × Except TableFull Nat :=
  match c.localIndex? n with
  | some i => (c, .ok i)
  | none =>
    let i := c.locals.size
    if i ≥ tableLimit then (c, .error .locals)
    else ({ c with locals := c.locals.push n }, .ok i)

/-- Declares the next argument: a local variable, one more accepted argument, and, unless it
is optional, one more required argument (all before it become required too). -/
def addArgument (c : Code) (n : String) (optional : Bool) : Code × Except TableFull Nat :=
  match c.addLocal n with
  | (c, .ok i) =>
    let c := { c with maxArgs := c.maxArgs + 1 }
    let c := if optional then c else { c with minArgs := c.maxArgs }
    (c, .ok i)
  | (c, .error e) => (c, .error e)

/-- Records that the next instruction starts `line`: an entry already at this index takes
the new line, and a line equal to the last entry's adds nothing. -/
def addLine (c : Code) (line : Nat) : Code :=
  let pc := c.instrs.size
  match c.lines.back? with
  | some (p, l) =>
    if p == pc then { c with lines := c.lines.pop.push (pc, line) }
    else if l == line then c
    else { c with lines := c.lines.push (pc, line) }
  | none => { c with lines := c.lines.push (pc, line) }

/-- The line of the last entry at or before `pc`, where `pc` is read as a 32-bit index like
the entries of the map, so only its low 32 bits count. -/
def lineFor? (c : Code) (pc : Nat) : Option Nat :=
  let pc := pc % 4294967296
  c.lines.foldl (fun acc (p, l) => if p ≤ pc then some l else acc) none

def firstLine? (c : Code) : Option Nat := c.lines[0]?.map (·.2)

def hasUserCall (c : Code) : Bool := c.instrs.any Instr.isCall

/-- Labels are allocated, or a label or a jump by label is still in the code. -/
def needsRelocation (c : Code) : Bool :=
  c.labelCount > 0 || c.instrs.any fun
    | .label _ => true
    | .jump j => j.symbolic
    | _ => false

/-- Overwrites the instruction at `pc`; `none` when there is none. -/
def patch? (c : Code) (pc : Nat) (op : Instr) : Option Code :=
  if pc < c.instrs.size then some { c with instrs := c.instrs.setIfInBounds pc op } else none

end Code

end ScriptEngine
