import ScriptEngine.Decimal.Shortest
import ScriptEngine.Text.Quoted
/-!
Script values. Scalars are held inline; code units, variable contexts and held locks are shared
entities, so a value refers to them by handle and two values are the same entity exactly
when their handles agree. The empty value is what most operations pass on instead of
failing. Showing a value needs the current names of the entities it refers to, which a
`Names` record supplies.
-/
namespace ScriptEngine

structure CodeId where
  index : Nat
  deriving DecidableEq, Repr, Inhabited, Hashable

structure ContextId where
  index : Nat
  deriving DecidableEq, Repr, Inhabited, Hashable

structure MutexId where
  index : Nat
  deriving DecidableEq, Repr, Inhabited, Hashable

/-- Handle of one held reference to a lock: copies of a lock value share it, and the
reference goes back to the lock when the last copy is gone. -/
structure HoldId where
  index : Nat
  deriving DecidableEq, Repr, Inhabited, Hashable

inductive Value where
  | empty
  | bool (b : Bool)
  | int (i : Int32)
  | float (x : Binary64)
  | str (s : String)
  | code (c : CodeId)
  | context (c : ContextId)
  /-- A held lock: the shared reference and the lock it belongs to. -/
  | lock (hold : HoldId) (mutex : MutexId)
  deriving DecidableEq, Repr, Inhabited

/-- The kinds of values, as scripts name them. -/
inductive Kind where
  | empty
  | boolean
  | integer
  | float
  | string
  | subroutine
  | context
  | lock
  deriving DecidableEq, Repr

def Kind.name : Kind → String
  | .empty => "empty"
  | .boolean => "boolean"
  | .integer => "integer"
  | .float => "float"
  | .string => "string"
  | .subroutine => "subroutine"
  | .context => "context"
  | .lock => "lock"

namespace Value

def kind : Value → Kind
  | .empty => .empty
  | .bool _ => .boolean
  | .int _ => .integer
  | .float _ => .float
  | .str _ => .string
  | .code _ => .subroutine
  | .context _ => .context
  | .lock _ _ => .lock

def isEmpty : Value → Bool
  | .empty => true
  | _ => false

/-- Truth: none for the empty value; numbers are true when nonzero (a NaN is), strings
when not empty, entities always. -/
def truth : Value → Option Bool
  | .empty => none
  | .bool b => some b
  | .int i => some (i != 0)
  | .float x => some (!x.isZero)
  | .str s => some (!s.isEmpty)
  | .code _ | .context _ | .lock _ _ => some true

def asInt : Value → Option Int32
  | .int i => some i
  | _ => none

/-- Integers and floats as binary64 numbers. -/
def asNumber : Value → Option Binary64
  | .int i => some (Binary64.ofInt i.toInt)
  | .float x => some x
  | _ => none

def asStr : Value → Option String
  | .str s => some s
  | _ => none

/-- Literal identity, used to share one entry of a literal pool: floats by bit pattern,
an integer never equal to a float, entities by handle, locks by the lock they hold. -/
def sameLiteral : Value → Value → Bool
  | .empty, .empty => true
  | .bool a, .bool b => a == b
  | .int a, .int b => a == b
  | .float a, .float b => a.bits == b.bits
  | .str a, .str b => a == b
  | .code a, .code b => a == b
  | .context a, .context b => a == b
  | .lock _ a, .lock _ b => a == b
  | _, _ => false

end Value

/-- The current names of shared entities: a subroutine's name (empty when it has none or
cannot be read at the moment), a context's description and a lock's name. -/
structure Names where
  subroutine : CodeId → String
  context : ContextId → String
  mutex : MutexId → String

namespace Value

/-- The text of a value as scripts print it. -/
def display (n : Names) : Value → String
  | .empty => "Empty"
  | .bool true => "True"
  | .bool false => "False"
  | .int i => toString i.toInt
  | .float x => Decimal.text x
  | .str s => s
  | .code c =>
    let name := n.subroutine c
    if name.isEmpty then "Sub" else "Sub " ++ name
  | .context s => "Context " ++ n.context s
  | .lock _ m => "Lock " ++ n.mutex m

/-- The text of a value in a listing: strings quoted, all else as displayed. -/
def literalText (n : Names) : Value → String
  | .str s => Text.quote s
  | v => v.display n

/-- The diagnostic text of a value: scalars tagged with their kind, entities displayed. -/
def debugText (n : Names) : Value → String
  | .empty => "Null"
  | .bool b => "Bool(" ++ toString b ++ ")"
  | .int i => "Int(" ++ toString i.toInt ++ ")"
  | .float x => "Float(" ++ Decimal.text x ++ ")"
  | .str s => "Str(" ++ Text.quote s ++ ")"
  | v => v.display n

end Value

end ScriptEngine
