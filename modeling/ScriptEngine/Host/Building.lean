import ScriptEngine.Host.Session
import ScriptEngine.Code.Append
import ScriptEngine.Code.Listing
/-!
Building code units on behalf of the host: each step adds to, changes or inspects one unit
and answers with a reply. Appending builds a second, fresh unit from
its own steps first. The dump gives the whole unit at once.
-/
namespace ScriptEngine

inductive CodeStep where
  | instr (op : Instr)
  | instrs (ops : List Instr)
  | pushLiteral (v : Literal)
  | literal (v : Literal)
  | name (n : String)
  | localVar (n : String)
  | argument (n : String) (optional : Bool)
  | makeLabel
  | makeLabels (count : Nat)
  | namesBulk (stem : String) (count : Nat)
  | label (l : Nat)
  | jump (cond : JumpCondition) (label : Nat)
  | line (l : Nat)
  | setName (s : String)
  | setFile (s : String)
  | setMinArgs (n : Nat)
  | setMaxArgs (n : Nat)
  | setVarargs (b : Bool)
  | setProcedure (b : Bool)
  | patch (pc : Nat) (op : Instr)
  | relocate
  | compact
  | append (steps : List CodeStep)
  | dump
  | disassemble
  | debug
  | lineFor (pc : Nat)
  | hasLocal (n : String)
  | literalAt (i : Nat)
  | nameAt (i : Nat)
  | instructionAt (pc : Nat)
  | summary
  deriving Repr

/-- The outcome of repeating an addition: how many succeeded, the last index they gave, and
the table that filled up, if one did. -/
structure Batch where
  made : Nat
  last : Option Nat
  error : Option TableFull
  deriving DecidableEq, Repr

structure Summary where
  len : Nat
  literals : Nat
  names : Nat
  locals : Nat
  labels : Nat
  lines : Nat
  needsRelocation : Bool
  deriving DecidableEq, Repr

structure Dump where
  code : Array Instr
  text : List String
  literals : List Shown
  names : Array String
  locals : Array String
  labels : Nat
  lines : Array (Nat × Nat)
  name : String
  file : String
  minArgs : Nat
  maxArgs : Nat
  varargs : Bool
  procedure : Bool
  needsRelocation : Bool
  hasUserCall : Bool
  firstLine : Option Nat
  disasm : String
  debug : String
  isEmpty : Bool
  jumps : Nat
  deriving Repr

inductive CodeReply where
  | unit
  | index (n : Nat)
  | maybeIndex (n : Option Nat)
  | flag (b : Bool)
  | full (e : TableFull)
  | batch (b : Batch)
  | appended (built : List CodeReply) (result : Option TableFull)
  | dump (d : Dump)
  | text (s : String)
  | literalAt (v : Option Shown)
  | nameAt (n : Option String)
  | instructionAt (op : Option Instr)
  | summary (s : Summary)
  deriving Repr

namespace Session

/-- Repeats an addition for `left` numbers from `i` on, stopping at the first full table. -/
def repeatAdd (add : Code → Nat → Code × Except TableFull Nat) (c : Code) (b : Batch) :
    Nat → Nat → Code × Batch
  | _, 0 => (c, b)
  | i, left + 1 =>
    match add c i with
    | (c, .ok n) => repeatAdd add c { b with made := b.made + 1, last := some n } (i + 1) left
    | (c, .error e) => (c, { b with error := some e })

def dumpOf (s : Session) (c : Code) : Dump where
  code := c.instrs
  text := c.instrs.toList.map Instr.text
  literals := c.literals.toList.map s.shown
  names := c.names
  locals := c.locals
  labels := c.labelCount
  lines := c.lines
  name := c.name
  file := c.file
  minArgs := c.minArgs
  maxArgs := c.maxArgs
  varargs := c.varargs
  procedure := c.procedure
  needsRelocation := c.needsRelocation
  hasUserCall := c.hasUserCall
  firstLine := c.firstLine?
  disasm := c.disassemble s.machine.names
  debug := c.debugText
  isEmpty := c.instrs.isEmpty
  jumps := c.jumpCount

/-- The reply to an addition that may find its table full. -/
def added (r : Code × Except TableFull Nat) : Code × CodeReply :=
  match r with
  | (c, .ok n) => (c, .index n)
  | (c, .error e) => (c, .full e)

mutual

/-- One step on unit `c`; literals named by the host may register units and contexts. -/
def buildStep (s : Session) (c : Code) : CodeStep → Session × Code × CodeReply
  | .instr op =>
    let (c, n) := c.addInstr op
    (s, c, .index n)
  | .instrs ops =>
    let (c, last) := ops.foldl (fun (acc : Code × Option Nat) op =>
      let (c, n) := acc.1.addInstr op
      (c, some n)) (c, none)
    (s, c, .maybeIndex last)
  | .pushLiteral l =>
    let (s, v) := s.resolve l
    (s, added (c.addPushLiteral v))
  | .literal l =>
    let (s, v) := s.resolve l
    (s, added (c.addLiteral v))
  | .name n => (s, added (c.addName n))
  | .localVar n => (s, added (c.addLocal n))
  | .argument n optional => (s, added (c.addArgument n optional))
  | .makeLabel => (s, added c.makeLabel)
  | .makeLabels count =>
    let (c, b) := repeatAdd (fun c _ => c.makeLabel) c ⟨0, none, none⟩ 0 count
    (s, c, .batch b)
  | .namesBulk stem count =>
    let (c, b) := repeatAdd (fun c i => c.addName (stem ++ toString i)) c ⟨0, none, none⟩ 0 count
    (s, c, .batch b)
  | .label l =>
    let (c, n) := c.addLabel l
    (s, c, .index n)
  | .jump cond l =>
    let (c, n) := c.addJump cond l
    (s, c, .index n)
  | .line l => (s, c.addLine l, .unit)
  | .setName n => (s, { c with name := n }, .unit)
  | .setFile n => (s, { c with file := n }, .unit)
  | .setMinArgs n => (s, { c with minArgs := n }, .unit)
  | .setMaxArgs n => (s, { c with maxArgs := n }, .unit)
  | .setVarargs b => (s, { c with varargs := b }, .unit)
  | .setProcedure b => (s, { c with procedure := b }, .unit)
  | .patch pc op =>
    match c.patch? pc op with
    | some c => (s, c, .flag true)
    | none => (s, c, .flag false)
  | .relocate => (s, c.relocate, .unit)
  | .compact => (s, c.compact, .unit)
  | .append steps =>
    let (s, other, built) := buildSteps s Code.empty steps
    let (c, result) := c.append other
    (s, c, .appended built result)
  | .dump => (s, c, .dump (s.dumpOf c))
  | .disassemble => (s, c, .text (c.disassemble s.machine.names))
  | .debug => (s, c, .text c.debugText)
  | .lineFor pc => (s, c, .maybeIndex (c.lineFor? pc))
  | .hasLocal n => (s, c, .maybeIndex (c.localIndex? n))
  | .literalAt i => (s, c, .literalAt ((c.literal? i).map s.shown))
  | .nameAt i => (s, c, .nameAt (c.name? i))
  | .instructionAt pc => (s, c, .instructionAt (c.instr? pc))
  | .summary =>
    (s, c, .summary ⟨c.size, c.literals.size, c.names.size, c.locals.size, c.labelCount,
      c.lines.size, c.needsRelocation⟩)

def buildSteps (s : Session) (c : Code) : List CodeStep → Session × Code × List CodeReply
  | [] => (s, c, [])
  | step :: rest =>
    let (s, c, r) := buildStep s c step
    let (s, c, rs) := buildSteps s c rest
    (s, c, r :: rs)

end

def buildFresh (s : Session) (steps : List CodeStep) : Session × Code × List CodeReply :=
  buildSteps s Code.empty steps

end Session

end ScriptEngine
