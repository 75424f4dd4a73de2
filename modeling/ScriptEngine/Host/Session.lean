import ScriptEngine.Machine.State
/-!
A host session: an engine together with the host's own tables, the code units and the
variable contexts it has registered under names (in registration order; a context
registered again under an old name takes that name's place), and the locks it holds
handles to. Values named by the host are literals: scalars, or a registered unit or context
by name, registering an empty one if the name is new. Values shown back to the host carry
the registered name of a unit (or none), a context's description and a lock's name.
-/
namespace ScriptEngine

/-- A value as the host writes it. -/
inductive Literal where
  | null
  | bool (b : Bool)
  | int (i : Int32)
  | float (x : Binary64)
  | str (s : String)
  | code (name : String)
  | context (name : String)
  deriving DecidableEq, Repr

/-- A value as the host reads it. -/
inductive Shown where
  | null
  | bool (b : Bool)
  | int (i : Int)
  | float (text : String)
  | str (s : String)
  | code (name : Option String)
  | context (describe : String)
  | lock (name : String)
  deriving DecidableEq, Repr

structure Session where
  machine : Machine := {}
  codeNames : Array (String × CodeId) := #[]
  contextNames : Array (String × ContextId) := #[]
  mutexHandles : Array MutexId := #[]

namespace Session

def codeNamed? (s : Session) (name : String) : Option CodeId :=
  (s.codeNames.find? (·.1 == name)).map (·.2)

def contextNamed? (s : Session) (name : String) : Option ContextId :=
  (s.contextNames.find? (·.1 == name)).map (·.2)

/-- The unit registered under `name`, registering an empty one if there is none. -/
def codeNamed (s : Session) (name : String) : Session × CodeId :=
  match s.codeNamed? name with
  | some id => (s, id)
  | none =>
    let (m, id) := s.machine.addCode Code.empty
    ({ s with machine := m, codeNames := s.codeNames.push (name, id) }, id)

/-- Registers a context under `name`, in the place of an earlier one of that name. -/
def registerContext (s : Session) (name : String) (id : ContextId) : Session :=
  let names := if s.contextNames.any (·.1 == name) then
      s.contextNames.map fun (n, c) => if n == name then (n, id) else (n, c)
    else s.contextNames.push (name, id)
  { s with contextNames := names, machine := { s.machine with hostContexts := names.map (·.2) } }

/-- The context registered under `name`, registering an empty one if there is none. -/
def contextNamed (s : Session) (name : String) : Session × ContextId :=
  match s.contextNamed? name with
  | some id => (s, id)
  | none =>
    let (m, id) := s.machine.addContext (.bindings { name := name })
    ({ s with machine := m }.registerContext name id, id)

def resolve (s : Session) : Literal → Session × Value
  | .null => (s, .empty)
  | .bool b => (s, .bool b)
  | .int i => (s, .int i)
  | .float x => (s, .float x)
  | .str t => (s, .str t)
  | .code name =>
    let (s, id) := s.codeNamed name
    (s, .code id)
  | .context name =>
    let (s, id) := s.contextNamed name
    (s, .context id)

def resolveAll (s : Session) (ls : List Literal) : Session × List Value :=
  ls.foldl (fun (acc : Session × List Value) l =>
    let (s, v) := acc.1.resolve l
    (s, acc.2 ++ [v])) (s, [])

def codeName? (s : Session) (id : CodeId) : Option String :=
  (s.codeNames.find? (·.2 == id)).map (·.1)

def shown (s : Session) : Value → Shown
  | .empty => .null
  | .bool b => .bool b
  | .int i => .int i.toInt
  | .float x => .float (Decimal.text x)
  | .str t => .str t
  | .code id => .code (s.codeName? id)
  | .context id => .context (s.machine.describe id)
  | .lock _ m => .lock (s.machine.mutexName m)

end Session

end ScriptEngine
