import ScriptEngine.Fault
/-!
Named cooperative locks. A registry gives each lock name a slot (slots are never reused for
another name) and records which lock, if any, currently holds the slot. A lock counts its
references; when the count drops to zero the lock leaves its slot and is abandoned, after
which it reports the name `<dead>` and no owner. Dropping the registry abandons every lock
in it; operations that need a registry fail while none is attached.
-/
namespace ScriptEngine

structure Mutex where
  name : String
  note : String
  slot : Nat
  refs : Nat := 1
  owner : Option Nat
  /-- False once the lock is abandoned. -/
  live : Bool := true
  deriving DecidableEq, Repr

namespace Mutex

def shownName (m : Mutex) : String := if m.live then m.name else "<dead>"

def currentOwner (m : Mutex) : Option Nat := if m.live then m.owner else none

end Mutex

structure Registry where
  /-- The name each slot was made for. -/
  slotNames : Array String := #[]
  /-- The live lock in each slot. -/
  occupant : Array (Option MutexId) := #[]
  deriving DecidableEq, Repr

/-- All locks ever made, by handle, and the registry, if one is attached. -/
structure LockTable where
  mutexes : Array Mutex := #[]
  registry : Option Registry := none
  deriving Repr

namespace LockTable

def get? (t : LockTable) (m : MutexId) : Option Mutex := t.mutexes[m.index]?

def modify (t : LockTable) (m : MutexId) (f : Mutex → Mutex) : LockTable :=
  { t with mutexes := t.mutexes.modify m.index f }

/-- The slot of a name in a registry, made if the name is new. -/
def slotFor (r : Registry) (name : String) : Registry × Nat :=
  match r.slotNames.findIdx? (· == name) with
  | some s => (r, s)
  | none => ({ slotNames := r.slotNames.push name, occupant := r.occupant.push none },
      r.slotNames.size)

def live? (t : LockTable) (name : String) : Option MutexId := do
  let r ← t.registry
  let s ← r.slotNames.findIdx? (· == name)
  let m ← r.occupant[s]?
  m

/-- A new lock with one reference in the slot of `name`; fails if the slot is held. -/
def create (t : LockTable) (name note : String) (owner : Option Nat) :
    Except Fault (LockTable × MutexId) :=
  match t.registry with
  | none => .error (.entityUnavailable .lockRegistry)
  | some r =>
    let (r, s) := slotFor r name
    match r.occupant[s]? with
    | some (some _) => .error .alreadyLocked
    | _ =>
      let id : MutexId := ⟨t.mutexes.size⟩
      let m : Mutex := { name := name, note := note, slot := s, owner := owner }
      .ok ({ mutexes := t.mutexes.push m,
             registry := some { r with occupant := r.occupant.set! s (some id) } }, id)

/-- The live lock of `name` with one more reference, taken over by `owner` if one is given;
refused if it belongs to another owner (or to one when none is given). Without a live lock
a new one is made. -/
def load (t : LockTable) (name note : String) (owner : Option Nat) :
    Except Fault (LockTable × MutexId) :=
  match t.registry with
  | none => .error (.entityUnavailable .lockRegistry)
  | some _ =>
    match t.live? name with
    | some id =>
      match t.get? id with
      | some m =>
        if m.currentOwner.isSome && m.currentOwner != owner then .error .incompatibleLocks
        else
          let t := t.modify id fun m => { m with refs := m.refs + 1 }
          let t := if owner.isSome then t.modify id fun m => { m with owner := owner } else t
          .ok (t, id)
      | none => t.create name note owner
    | none => t.create name note owner

/-- Live locks in slot order, only those of `owner` if one is given. -/
def enum (t : LockTable) (owner : Option Nat) : List MutexId :=
  match t.registry with
  | none => []
  | some r => r.occupant.toList.filterMap id |>.filter fun m =>
      owner.isNone || ((t.get? m).map (·.currentOwner)).join == owner

def liveCount (t : LockTable) : Nat := (t.enum none).length

/-- Live locks owned by `pid` lose their owner. -/
def disown (t : LockTable) (pid : Nat) : LockTable :=
  (t.enum (some pid)).foldl (fun t m => t.modify m fun m => { m with owner := none }) t

def addRef (t : LockTable) (m : MutexId) : LockTable :=
  t.modify m fun m => { m with refs := m.refs + 1 }

/-- One reference fewer; at zero the lock is abandoned and its slot freed. A lock without
references is left as it is. -/
def removeRef (t : LockTable) (id : MutexId) : LockTable :=
  match t.get? id with
  | none => t
  | some m =>
    if m.refs == 0 then t
    else if m.refs > 1 then t.modify id fun m => { m with refs := m.refs - 1 }
    else
      let wasLive := m.live
      let t := t.modify id fun m => { m with refs := 0, live := false }
      if !wasLive then t
      else match t.registry with
        | some r =>
          if r.occupant[m.slot]? == some (some id) then
            { t with registry := some { r with occupant := r.occupant.set! m.slot none } }
          else t
        | none => t

def setOwner (t : LockTable) (id : MutexId) (owner : Option Nat) : LockTable :=
  t.modify id fun m => if m.live then { m with owner := owner } else m

/-- Removes the registry, abandoning every lock still in it. -/
def dropRegistry (t : LockTable) : LockTable :=
  let t := (t.enum none).foldl (fun t m => t.modify m fun m => { m with live := false }) t
  { t with registry := none }

/-- A fresh, empty registry in place of the current one. -/
def attachRegistry (t : LockTable) : LockTable := { t.dropRegistry with registry := some {} }

end LockTable

end ScriptEngine
