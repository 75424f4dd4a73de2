import ScriptEngine.Value
import ScriptEngine.Operation.Basic
/-!
Faults: the reasons an operation of the engine refuses or an instruction fails. Each
constructor is one cause; `Fault.message` is the only place that words them.
-/
namespace ScriptEngine

/-- Values of the wrong kind for what was asked of them. -/
inductive Mismatch where
  /-- An operator that has no meaning for these two kinds. -/
  | operands (op : BinaryOp) (left right : Kind)
  /-- An ordering with a NaN on either side. -/
  | unordered (op : BinaryOp)
  | negate (k : Kind)
  | call (k : Kind)
  | context (k : Kind)
  | lockName (k : Kind)
  deriving DecidableEq, Repr

def Mismatch.text : Mismatch → String
  | .operands op a b => "cannot " ++ op.mnemonic ++ " " ++ a.name ++ " and " ++ b.name
  | .unordered op => "cannot " ++ op.mnemonic ++ " NaN"
  | .negate k => "cannot negate " ++ k.name
  | .call k => "cannot call " ++ k.name
  | .context k => "cannot use " ++ k.name ++ " as a context"
  | .lockName k => "lock name must be a string, not " ++ k.name

/-- The table an instruction operand indexes. -/
inductive Table where
  | literal
  | localSlot
  | name
  | jumpTarget
  deriving DecidableEq, Repr

def Table.text : Table → String
  | .literal => "literal"
  | .localSlot => "local"
  | .name => "name"
  | .jumpTarget => "jump target"

/-- Something that was asked for and is not there. -/
inductive Entity where
  | lockRegistry
  | frameOf (subroutine : String)
  | bytecode (id : Nat)
  | context (tag id : Nat)
  | process (name : String)
  | mutex (name : String)
  deriving DecidableEq, Repr

def Entity.text : Entity → String
  | .lockRegistry => "lock registry"
  | .frameOf s => "frame of " ++ s
  | .bytecode id => "bytecode " ++ toString id
  | .context tag id => "context " ++ toString tag ++ ":" ++ toString id
  | .process name => "process " ++ name
  | .mutex name => "mutex " ++ name

/-- Control that cannot go on. -/
inductive Stuck where
  | unresolvedLabel (label : Nat)
  | returnCount (n : Nat)
  | noActiveFrame
  deriving DecidableEq, Repr

def Stuck.text : Stuck → String
  | .unresolvedLabel l => "unresolved label L" ++ toString l
  | .returnCount n => "cannot return " ++ toString n ++ " values"
  | .noActiveFrame => "no active frame"

inductive Fault where
  | stackOverflow
  | stackUnderflow
  | typeError (m : Mismatch)
  | unknownIdentifier (name : String)
  | invalidOperand (table : Table) (index : Nat)
  | tooFewArguments
  | tooManyArguments
  | divisionByZero
  | alreadyLocked
  | incompatibleLocks
  | cannotSuspend
  /-- A failure raised by a script, with the text it gave. -/
  | userError (text : String)
  | entityUnavailable (e : Entity)
  | runtimeError (s : Stuck)
  deriving DecidableEq, Repr

def Fault.message : Fault → String
  | .stackOverflow => "Stack overflow"
  | .stackUnderflow => "Stack underflow"
  | .typeError m => "Type error: " ++ m.text
  | .unknownIdentifier name => "Unknown identifier: " ++ name
  | .invalidOperand t i => "Invalid " ++ t.text ++ " index " ++ toString i
  | .tooFewArguments => "Too few arguments"
  | .tooManyArguments => "Too many arguments"
  | .divisionByZero => "Division by zero"
  | .alreadyLocked => "Already locked"
  | .incompatibleLocks => "Incompatible locks"
  | .cannotSuspend => "Cannot suspend here"
  | .userError text => text
  | .entityUnavailable e => "Entity unavailable: " ++ e.text
  | .runtimeError s => "Runtime error: " ++ s.text

end ScriptEngine
