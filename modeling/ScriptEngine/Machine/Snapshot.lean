import ScriptEngine.Machine.Schedule
/-!
The boundary that saved engine state is loaded and saved through. Loading asks a chain of
sources for the entities a saved stream refers to; a source answers or refuses. A process
layer answers lock requests with locks of the process's registry (owned by the process if
the saved lock was owned), a world layer answers process requests by creating a process and
lock requests with unowned locks; both pass all other requests on. A loaded lock carries a
reference for whoever asked. Saving numbers code units by identity in the order first met.
-/
namespace ScriptEngine

/-- An entity a saved stream refers to. -/
inductive Request where
  | bytecode (id : Nat)
  | array (id : Nat)
  | hash (id : Nat)
  | structureValue (id : Nat)
  | structureType (name : String)
  | context (tag id : Nat)
  | process (name : String)
  | mutex (name note : String) (owned : Bool)
  deriving DecidableEq, Repr

/-- An entity supplied for a request. -/
inductive Loaded where
  | value (v : Value)
  | bytecode (c : CodeId)
  | context (c : ContextId)
  | process (pid : Nat)
  | mutex (m : MutexId)
  deriving DecidableEq, Repr

/-- Which layer answers first. -/
inductive Layer where
  | parent
  | process (pid : Nat)
  | world
  deriving DecidableEq, Repr

namespace Machine

/-- A lock for a load: the registry's live lock or a new one; refused when the registry
refuses. -/
def loadMutex (m : Machine) (name note : String) (owner : Option Nat) : Machine × Option Loaded :=
  match m.locks.load name note owner with
  | .ok (locks, id) => ({ m with locks := locks }, some (.mutex id))
  | .error _ => (m, none)

/-- Answers a request through a layer over the source `parent`. -/
def load (m : Machine) (layer : Layer) (parent : Request → Option Loaded) (r : Request) :
    Machine × Option Loaded :=
  match layer, r with
  | .process pid, .mutex name note owned => m.loadMutex name note (if owned then some pid else none)
  | .world, .process name =>
    let (m, p) := m.create name
    (m, some (.process p.id))
  | .world, .mutex name note _ => m.loadMutex name note none
  | _, r => (m, parent r)

def loadBytecode (m : Machine) (layer : Layer) (parent : Request → Option Loaded) (id : Nat) :
    Machine × Except Fault CodeId :=
  match m.load layer parent (.bytecode id) with
  | (m, some (.bytecode c)) => (m, .ok c)
  | (m, _) => (m, .error (.entityUnavailable (.bytecode id)))

def loadContext (m : Machine) (layer : Layer) (parent : Request → Option Loaded) (tag id : Nat) :
    Machine × Except Fault ContextId :=
  match m.load layer parent (.context tag id) with
  | (m, some (.context c)) => (m, .ok c)
  | (m, _) => (m, .error (.entityUnavailable (.context tag id)))

def loadProcess (m : Machine) (layer : Layer) (parent : Request → Option Loaded) (name : String) :
    Machine × Except Fault Nat :=
  match m.load layer parent (.process name) with
  | (m, some (.process pid)) => (m, .ok pid)
  | (m, _) => (m, .error (.entityUnavailable (.process name)))

/-- Loads a lock; a loaded entity of another kind is refused (a lock among them keeps the
reference it was given). -/
def loadLock (m : Machine) (layer : Layer) (parent : Request → Option Loaded)
    (name note : String) (owned : Bool) : Machine × Except Fault MutexId :=
  match m.load layer parent (.mutex name note owned) with
  | (m, some (.mutex id)) => (m, .ok id)
  | (m, _) => (m, .error (.entityUnavailable (.mutex name)))

end Machine

/-- Numbers for code units in a stream being saved, by identity in the order first asked. -/
structure SaveIds where
  codes : Array CodeId := #[]
  deriving DecidableEq, Repr

namespace SaveIds

/-- The unit's number, given it the first time it is asked for. -/
def codeId (s : SaveIds) (c : CodeId) : SaveIds × Nat :=
  match s.codes.findIdx? (· == c) with
  | some i => (s, i)
  | none => ({ codes := s.codes.push c }, s.codes.size)

def existing? (s : SaveIds) (c : CodeId) : Option Nat := s.codes.findIdx? (· == c)

end SaveIds

end ScriptEngine
