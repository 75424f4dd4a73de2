import Mathlib.Data.List.Nodup
import ScriptEngine.Machine.Locks
/-!
The lock registry along any sequence of operations. A table starts with an empty registry;
locks are created and loaded through it, references to them are added and removed, their
owners are set, a process disowns its locks, and the registry may be dropped. Along every
such sequence each name keeps the slot it was first given, every occupied slot holds a live
lock made for it under the slot's name with at least one reference, and every live lock
occupies its slot, so a slot never holds two. A lock leaves its slot exactly when its last
reference goes or the registry is dropped, and it never comes back; a query finds the live
lock of a name; once the registry is dropped every lock reads as dead and ownerless, its
owner cannot be set, and nothing can be locked or found any more.
-/
namespace ScriptEngine

/-- What can be done to a lock table. Queries and enumerations change nothing and are not
listed. -/
inductive LockOp where
  | create (name note : String) (owner : Option Nat)
  | load (name note : String) (owner : Option Nat)
  | disown (pid : Nat)
  | addRef (id : MutexId)
  | removeRef (id : MutexId)
  | setOwner (id : MutexId) (owner : Option Nat)
  | dropRegistry
  deriving DecidableEq, Repr

/-- A lock with one reference fewer; with its last reference gone it is dead. A lock
without references stays as it is. -/
def Mutex.unref (m : Mutex) : Mutex :=
  if m.refs = 0 then m
  else if m.refs > 1 then { m with refs := m.refs - 1 }
  else { m with refs := 0, live := false }

namespace LockTable

/-- A table after one operation; a refused creation or load leaves it as it was. -/
def apply (t : LockTable) : LockOp → LockTable
  | .create name note owner => match t.create name note owner with
    | .ok (t, _) => t
    | .error _ => t
  | .load name note owner => match t.load name note owner with
    | .ok (t, _) => t
    | .error _ => t
  | .disown pid => t.disown pid
  | .addRef id => t.addRef id
  | .removeRef id => t.removeRef id
  | .setOwner id owner => t.setOwner id owner
  | .dropRegistry => t.dropRegistry

def applyAll (t : LockTable) (ops : List LockOp) : LockTable := ops.foldl apply t

/-- A table with a fresh registry and no locks. -/
def fresh : LockTable := { registry := some {} }

/-- Lock `id` occupies the slot it was made for. -/
def Seated (t : LockTable) (id : MutexId) : Prop :=
  ∃ r mu, t.registry = some r ∧ t.get? id = some mu ∧ r.occupant[mu.slot]? = some (some id)

/-- The registry's bookkeeping: names are given one slot each and there is an occupant entry
per slot; an occupied slot holds a live lock made for it, under the slot's name, with a
reference; and a live lock occupies its slot. -/
structure Sound (t : LockTable) : Prop where
  names : ∀ r, t.registry = some r →
    r.slotNames.toList.Nodup ∧ r.occupant.size = r.slotNames.size
  occupants : ∀ r, t.registry = some r → ∀ s id, r.occupant[s]? = some (some id) →
    ∃ mu, t.get? id = some mu ∧ mu.slot = s ∧ r.slotNames[s]? = some mu.name ∧
      mu.live = true ∧ 0 < mu.refs
  seated : ∀ id mu, t.get? id = some mu → mu.live = true →
    ∃ r, t.registry = some r ∧ r.occupant[mu.slot]? = some (some id)

variable {t t' : LockTable} {id id' : MutexId} {mu : Mutex}

theorem getModify (t : LockTable) (id id' : MutexId) (f : Mutex → Mutex) :
    (t.modify id f).get? id' = if id = id' then (t.get? id').map f else t.get? id' := by
  rcases id with ⟨i⟩
  rcases id' with ⟨j⟩
  simp [get?, modify, Array.getElem?_modify]

@[simp] theorem registryModify (t : LockTable) (id : MutexId) (f : Mutex → Mutex) :
    (t.modify id f).registry = t.registry := rfl

theorem modifyFixed {f : Mutex → Mutex} (fixed : ∀ mu, t.get? id = some mu → f mu = mu) :
    t.modify id f = t := by
  rcases t with ⟨mutexes, registry⟩
  simp only [modify, LockTable.mk.injEq, and_true]
  refine Array.ext_getElem? fun j => ?_
  rw [Array.getElem?_modify]
  split
  · rename_i same
    subst same
    cases h : mutexes[id.index]? with
    | none => rfl
    | some mu => simp [fixed mu h]
  · rfl

theorem getFoldModify (f : Mutex → Mutex) (idem : ∀ mu, f (f mu) = f mu) (ids : List MutexId)
    (id : MutexId) : ∀ t : LockTable, (ids.foldl (fun t m => t.modify m f) t).get? id =
      if id ∈ ids then (t.get? id).map f else t.get? id := by
  induction ids with
  | nil => intro t; simp
  | cons m ids ih =>
    intro t
    rw [List.foldl_cons, ih, getModify]
    by_cases here : m = id
    · subst here
      cases t.get? m <;> simp [idem]
    · by_cases later : id ∈ ids <;> simp [here, later, Ne.symm here]

theorem registryFoldModify (f : Mutex → Mutex) (ids : List MutexId) :
    ∀ t : LockTable, (ids.foldl (fun t m => t.modify m f) t).registry = t.registry := by
  induction ids with
  | nil => intro t; rfl
  | cons m ids ih => intro t; rw [List.foldl_cons, ih]; rfl

/-! A slot for a name. -/

theorem findName {names : Array String} (nodup : names.toList.Nodup) {s : Nat} {name : String}
    (at_ : names[s]? = some name) : names.findIdx? (· == name) = some s := by
  obtain ⟨hs, rfl⟩ := Array.getElem?_eq_some_iff.mp at_
  refine Array.findIdx?_eq_some_iff_getElem.mpr ⟨hs, by simp, fun j hj same => ?_⟩
  have bound : j < names.toList.length := by simp; omega
  have equal : names.toList[j] = names.toList[s] := by simpa using same
  have : j = s := nodup.getElem_inj_iff.mp equal
  omega

theorem slotForSpec {r r' : Registry} {name : String} {s : Nat}
    (names : r.slotNames.toList.Nodup ∧ r.occupant.size = r.slotNames.size)
    (h : slotFor r name = (r', s)) :
    (r'.slotNames.toList.Nodup ∧ r'.occupant.size = r'.slotNames.size) ∧
      r'.slotNames[s]? = some name ∧ r.slotNames.toList <+: r'.slotNames.toList ∧
      ∀ (i : Nat) (x : MutexId),
        r'.occupant[i]? = some (some x) ↔ r.occupant[i]? = some (some x) := by
  unfold slotFor at h
  split at h
  · rename_i s' found
    cases h
    obtain ⟨hs, hname, -⟩ := Array.findIdx?_eq_some_iff_getElem.mp found
    refine ⟨names, ?_, List.prefix_refl _, fun _ _ => Iff.rfl⟩
    rw [Array.getElem?_eq_getElem hs]
    simpa using hname
  · rename_i absent
    cases h
    have fresh : name ∉ r.slotNames.toList := by
      intro mem
      have := (Array.findIdx?_eq_none_iff.mp absent) name (by simpa using mem)
      simp at this
    refine ⟨⟨?_, by simp [names.2]⟩, by simp, ⟨[name], by simp⟩, fun i x => ?_⟩
    · rw [Array.toList_push]
      exact names.1.append (List.nodup_singleton name)
        (List.disjoint_singleton.mpr fresh)
    · rw [Array.getElem?_push]
      split <;> simp_all

theorem namePrefix {r r' : Registry} (pre : r.slotNames.toList <+: r'.slotNames.toList) {s : Nat}
    {name : String} (at_ : r.slotNames[s]? = some name) : r'.slotNames[s]? = some name := by
  obtain ⟨extra, same⟩ := pre
  rw [← Array.getElem?_toList] at at_ ⊢
  rw [← same, List.getElem?_append_left (List.getElem?_eq_some_iff.mp at_).1]
  exact at_

theorem memEnum {r : Registry} (reg : t.registry = some r) {s : Nat}
    (occ : r.occupant[s]? = some (some id)) : id ∈ t.enum none := by
  simp only [enum, reg, Option.isNone_none, Bool.true_or, List.filter_true, List.mem_filterMap,
    id_eq, exists_eq_right]
  exact List.mem_iff_getElem?.mpr ⟨s, by simpa using occ⟩

/-! The bookkeeping stays sound under each operation. -/

theorem Sound.modify (sound : t.Sound) {f : Mutex → Mutex}
    (keeps : ∀ mu, t.get? id = some mu → (f mu).name = mu.name ∧ (f mu).slot = mu.slot ∧
      (f mu).live = mu.live ∧ (0 < mu.refs → 0 < (f mu).refs)) :
    (t.modify id f).Sound := by
  refine ⟨sound.names, fun r reg s id' occ => ?_, fun id' mu found live => ?_⟩
  · obtain ⟨mu, found, slot, name, live, refs⟩ := sound.occupants r reg s id' occ
    rw [getModify]
    split
    · rename_i same
      subst same
      obtain ⟨hn, hs, hl, hr⟩ := keeps mu found
      exact ⟨f mu, by simp [found], hs.trans slot, hn ▸ name, hl.trans live, hr refs⟩
    · exact ⟨mu, found, slot, name, live, refs⟩
  · rw [getModify] at found
    split at found
    · rename_i same
      subst same
      obtain ⟨mu₀, found₀, rfl⟩ := Option.map_eq_some_iff.mp found
      obtain ⟨-, hs, hl, -⟩ := keeps mu₀ found₀
      rw [hs]
      exact sound.seated id mu₀ found₀ (hl ▸ live)
    · exact sound.seated id' mu found live

theorem Sound.foldModify {f : Mutex → Mutex} (keeps : ∀ mu, (f mu).name = mu.name ∧
      (f mu).slot = mu.slot ∧ (f mu).live = mu.live ∧ (0 < mu.refs → 0 < (f mu).refs))
    (ids : List MutexId) : ∀ {t : LockTable}, t.Sound →
      (ids.foldl (fun t m => t.modify m f) t).Sound := by
  induction ids with
  | nil => exact fun sound => sound
  | cons m ids ih => exact fun sound => ih (sound.modify fun mu _ => keeps mu)

theorem Sound.disown (sound : t.Sound) (pid : Nat) : (t.disown pid).Sound := by
  unfold LockTable.disown
  refine Sound.foldModify (fun _ => ?_) _ sound
  exact ⟨rfl, rfl, rfl, fun h => h⟩

theorem Sound.addRef (sound : t.Sound) (id : MutexId) : (t.addRef id).Sound :=
  sound.modify fun _ _ => ⟨rfl, rfl, rfl, fun _ => by simp⟩

theorem Sound.setOwner (sound : t.Sound) (id : MutexId) (owner : Option Nat) :
    (t.setOwner id owner).Sound :=
  sound.modify fun mu _ => by by_cases live : mu.live <;> simp [live]

theorem getRemoveRef (t : LockTable) (id id' : MutexId) :
    (t.removeRef id).get? id' = if id = id' then (t.get? id').map Mutex.unref else t.get? id' := by
  unfold LockTable.removeRef
  split
  · rename_i absent
    split
    · rename_i same
      subst same
      rw [absent]
      rfl
    · rfl
  rename_i mu found
  -- every other outcome takes its locks from `t` with this lock changed as `unref` says
  have changed : ∀ f : Mutex → Mutex, f mu = mu.unref →
      (t.modify id f).get? id' = if id = id' then (t.get? id').map Mutex.unref else t.get? id' := by
    intro f agrees
    rw [getModify]
    split
    · rename_i same
      subst same
      simp [found, agrees]
    · rfl
  split
  · rename_i zero
    have zero : mu.refs = 0 := by simpa using zero
    split
    · rename_i same
      subst same
      simp [found, Mutex.unref, zero]
    · rfl
  split
  · rename_i zero more
    exact changed _ (by simp at zero; simp [Mutex.unref, zero, more])
  rename_i zero more
  have kill : ({ mu with refs := 0, live := false } : Mutex) = mu.unref := by
    simp at zero
    simp [Mutex.unref, zero, more]
  dsimp only
  split
  · exact changed _ kill
  split
  · split
    · exact changed _ kill
    · exact changed _ kill
  · exact changed _ kill

theorem Sound.removeRef (sound : t.Sound) (id : MutexId) : (t.removeRef id).Sound := by
  unfold LockTable.removeRef
  split
  · exact sound
  rename_i mu found
  split
  · exact sound
  split
  · -- references are left, so nothing but the count changes
    rename_i _ more
    exact sound.modify fun mu' found' => by
      rw [found, Option.some.injEq] at found'
      subst found'
      exact ⟨rfl, rfl, rfl, fun _ => show 0 < mu.refs - 1 by omega⟩
  -- the lock is dead afterwards; no slot but its own can name it
  have killed : ∀ id' mu', (t.modify id fun m => { m with refs := 0, live := false }).get? id' =
      some mu' → mu'.live = true → id' ≠ id ∧ t.get? id' = some mu' := by
    intro id' mu' found' live'
    rw [getModify] at found'
    split at found'
    · rename_i same
      subst same
      obtain ⟨_, _, rfl⟩ := Option.map_eq_some_iff.mp found'
      cases live'
    · exact ⟨Ne.symm ‹_›, found'⟩
  have others : ∀ r, t.registry = some r → ∀ (s : Nat) (id' : MutexId),
      r.occupant[s]? = some (some id') →
      id' ≠ id → (t.modify id fun m => { m with refs := 0, live := false }).get? id' =
        t.get? id' := fun _ _ _ id' _ other => by rw [getModify, if_neg (Ne.symm other)]
  dsimp only
  split
  · -- the lock was dead already, so it occupies no slot
    rename_i dead
    refine ⟨sound.names, fun r reg s id' occ => ?_, fun id' mu' found' live' => ?_⟩
    · obtain ⟨mu', found', slot, name, live, refs⟩ := sound.occupants r reg s id' occ
      have other : id' ≠ id := by
        rintro rfl
        rw [found, Option.some.injEq] at found'
        subst found'
        simp [live] at dead
      exact ⟨mu', (others r reg s id' occ other).trans found', slot, name, live, refs⟩
    · exact sound.seated id' mu' (killed id' mu' found' live').2 live'
  rename_i live
  obtain ⟨r, reg, occ⟩ := sound.seated id mu found (by simpa using live)
  simp only [registryModify, reg, occ, beq_self_eq_true, if_true]
  refine ⟨fun r' reg' => ?_, fun r' reg' s id' occ' => ?_, fun id' mu' found' live' => ?_⟩
  · cases reg'
    simpa using sound.names r reg
  · cases reg'
    simp only [Array.set!_eq_setIfInBounds, Array.getElem?_setIfInBounds] at occ'
    split at occ'
    · split at occ' <;> simp at occ'
    rename_i elsewhere
    obtain ⟨mu', found', slot, name, live', refs⟩ := sound.occupants r reg s id' occ'
    have other : id' ≠ id := by
      rintro rfl
      rw [found, Option.some.injEq] at found'
      subst found'
      exact elsewhere slot
    exact ⟨mu', (others r reg s id' occ' other).trans found', slot, name, live', refs⟩
  · obtain ⟨other, found'⟩ := killed id' mu' found' live'
    obtain ⟨r', reg', occ'⟩ := sound.seated id' mu' found' live'
    rw [reg, Option.some.injEq] at reg'
    subst reg'
    refine ⟨_, rfl, ?_⟩
    simp only [Array.set!_eq_setIfInBounds, Array.getElem?_setIfInBounds]
    split
    · rename_i same
      rw [← same, occ, Option.some.injEq, Option.some.injEq] at occ'
      exact absurd occ'.symm other
    · exact occ'

theorem createOk {name note : String} {owner : Option Nat}
    (h : t.create name note owner = .ok (t', id)) :
    ∃ r r' s, t.registry = some r ∧ slotFor r name = (r', s) ∧
      (∀ x, r'.occupant[s]? ≠ some (some x)) ∧ id = ⟨t.mutexes.size⟩ ∧
      t' = { mutexes := t.mutexes.push { name := name, note := note, slot := s, owner := owner }
             registry := some { r' with occupant := r'.occupant.set! s (some id) } } := by
  unfold LockTable.create at h
  split at h
  · cases h
  rename_i r reg
  rcases slot : slotFor r name with ⟨r', s⟩
  rw [slot] at h
  dsimp only at h
  split at h
  · cases h
  rename_i free
  cases h
  exact ⟨r, r', s, reg, slot, fun x occ => free x occ, rfl, rfl⟩

theorem loadOk {name note : String} {owner : Option Nat}
    (h : t.load name note owner = .ok (t', id)) :
    (∃ mu, t.live? name = some id ∧ t.get? id = some mu ∧
      (mu.currentOwner.isSome && mu.currentOwner != owner) = false ∧
      t' = if owner.isSome then
          (t.modify id fun m => { m with refs := m.refs + 1 }).modify id fun m => { m with owner := owner }
        else t.modify id fun m => { m with refs := m.refs + 1 }) ∨
    t.create name note owner = .ok (t', id) := by
  unfold LockTable.load at h
  split at h
  · cases h
  split at h
  · rename_i live
    split at h
    · rename_i mu found
      split at h
      · cases h
      rename_i fits
      cases h
      exact .inl ⟨mu, live, found, Bool.eq_false_iff.mpr fits, rfl⟩
    · exact .inr h
  · exact .inr h

theorem getPush (t : LockTable) (mu : Mutex) (r : Option Registry) (id : MutexId) :
    ({ mutexes := t.mutexes.push mu, registry := r } : LockTable).get? id =
      if id.index = t.mutexes.size then some mu else t.get? id := by
  simp [get?, Array.getElem?_push]

theorem indexBelow (found : t.get? id = some mu) : id.index < t.mutexes.size :=
  (Array.getElem?_eq_some_iff.mp found).1

theorem Sound.create (sound : t.Sound) {name note : String} {owner : Option Nat}
    (h : t.create name note owner = .ok (t', id)) : t'.Sound := by
  obtain ⟨r, r', s, reg, slot, free, rfl, rfl⟩ := createOk h
  obtain ⟨names, named, pre, occupied⟩ := slotForSpec (sound.names r reg) slot
  have inRange : s < r'.occupant.size := by
    rw [names.2]
    exact (Array.getElem?_eq_some_iff.mp named).1
  refine ⟨fun r₀ reg₀ => ?_, fun r₀ reg₀ s' id' occ => ?_, fun id' mu' found live => ?_⟩
  · cases reg₀
    simpa using names
  · cases reg₀
    simp only [Array.set!_eq_setIfInBounds, Array.getElem?_setIfInBounds] at occ
    split at occ
    · -- the slot of the new lock
      rename_i same
      subst same
      cases occ
      exact ⟨{ name := name, note := note, slot := s, owner := owner }, by simp [getPush], rfl,
        named, rfl, Nat.one_pos⟩
    · obtain ⟨mu, found, at_, name, live, refs⟩ :=
        sound.occupants r reg s' id' ((occupied s' id').mp occ)
      rw [getPush, if_neg (Nat.ne_of_lt (indexBelow found))]
      exact ⟨mu, found, at_, namePrefix pre name, live, refs⟩
  · rw [getPush] at found
    split at found
    · rename_i new
      cases found
      refine ⟨_, rfl, ?_⟩
      rcases id' with ⟨i⟩
      simp only at new
      simp [inRange, new]
    · obtain ⟨r₀, reg₀, occ⟩ := sound.seated id' mu' found live
      rw [reg, Option.some.injEq] at reg₀
      subst reg₀
      refine ⟨_, rfl, ?_⟩
      have moved := (occupied mu'.slot id').mpr occ
      simp only [Array.set!_eq_setIfInBounds, Array.getElem?_setIfInBounds]
      rw [if_neg]
      · exact moved
      · rintro rfl
        exact free id' moved

theorem Sound.load (sound : t.Sound) {name note : String} {owner : Option Nat}
    (h : t.load name note owner = .ok (t', id)) : t'.Sound := by
  rcases loadOk h with ⟨-, -, -, -, rfl⟩ | created
  · have more : (t.modify id fun m => { m with refs := m.refs + 1 }).Sound :=
      sound.modify fun _ _ => ⟨rfl, rfl, rfl, fun _ => Nat.succ_pos _⟩
    split
    · exact more.modify fun _ _ => ⟨rfl, rfl, rfl, fun h => h⟩
    · exact more
  · exact sound.create created

@[simp] theorem registryDrop (t : LockTable) : t.dropRegistry.registry = none := rfl

theorem getDrop (t : LockTable) (id : MutexId) :
    t.dropRegistry.get? id = if id ∈ t.enum none then
      (t.get? id).map fun m => { m with live := false } else t.get? id :=
  getFoldModify (fun m : Mutex => { m with live := false }) (fun _ => rfl) (t.enum none) id t

theorem Sound.dropRegistry (sound : t.Sound) : t.dropRegistry.Sound := by
  refine ⟨fun r reg => absurd reg (by simp), fun r reg => absurd reg (by simp),
    fun id' mu' found live => ?_⟩
  -- no lock is left live: each live lock occupied a slot, and all of those were abandoned
  exfalso
  rw [getDrop] at found
  split at found
  · obtain ⟨_, _, rfl⟩ := Option.map_eq_some_iff.mp found
    cases live
  · rename_i absent
    obtain ⟨r, reg, occ⟩ := sound.seated id' mu' found live
    exact absent (memEnum reg occ)

theorem Sound.apply (sound : t.Sound) : ∀ op, (t.apply op).Sound
  | .create name note owner => by
    simp only [LockTable.apply]
    split
    · rename_i created
      exact sound.create created
    · exact sound
  | .load name note owner => by
    simp only [LockTable.apply]
    split
    · rename_i loaded
      exact sound.load loaded
    · exact sound
  | .disown pid => sound.disown pid
  | .addRef id => sound.addRef id
  | .removeRef id => sound.removeRef id
  | .setOwner id owner => sound.setOwner id owner
  | .dropRegistry => sound.dropRegistry

theorem freshSound : fresh.Sound := by
  refine ⟨fun r reg => ?_, fun r reg s id occ => ?_, fun id mu found => ?_⟩
  · simp only [fresh, Option.some.injEq] at reg
    subst reg
    simp
  · simp only [fresh, Option.some.injEq] at reg
    subst reg
    simp at occ
  · simp [get?, fresh] at found

theorem Sound.applyAll (ops : List LockOp) : ∀ {t : LockTable}, t.Sound →
    (t.applyAll ops).Sound := by
  induction ops with
  | nil => exact fun sound => sound
  | cons op ops ih => exact fun sound => ih (sound.apply op)

/-! What each operation does to the locks already made and to the registry's names. -/

theorem Sound.seatedIff (sound : t.Sound) :
    t.Seated id ↔ ∃ mu, t.get? id = some mu ∧ mu.live = true := by
  constructor
  · rintro ⟨r, mu, reg, found, occ⟩
    obtain ⟨mu', found', -, -, live, -⟩ := sound.occupants r reg mu.slot id occ
    exact ⟨mu', found', live⟩
  · rintro ⟨mu, found, live⟩
    obtain ⟨r, reg, occ⟩ := sound.seated id mu found live
    exact ⟨r, mu, reg, found, occ⟩

theorem Sound.noLive (sound : t.Sound) (gone : t.registry = none) (found : t.get? id = some mu) :
    mu.live = false := by
  cases live : mu.live
  · rfl
  · obtain ⟨r, reg, -⟩ := sound.seated id mu found live
    simp [gone] at reg

/-- The locks of `t` are still there in `t'`, each as live as it was. -/
def LivesKept (t t' : LockTable) : Prop :=
  ∀ id mu, t.get? id = some mu → ∃ mu', t'.get? id = some mu' ∧ mu'.live = mu.live

theorem livesKeptModify (f : Mutex → Mutex) (keeps : ∀ mu, (f mu).live = mu.live)
    (id : MutexId) : LivesKept t (t.modify id f) := by
  intro id' mu found
  rw [getModify, found]
  split
  · exact ⟨f mu, rfl, keeps mu⟩
  · exact ⟨mu, rfl, rfl⟩

theorem livesKeptCreate {name note : String} {owner : Option Nat}
    (h : t.create name note owner = .ok (t', id)) : LivesKept t t' := by
  obtain ⟨r, r', s, reg, slot, free, rfl, rfl⟩ := createOk h
  intro id' mu found
  rw [getPush, if_neg (Nat.ne_of_lt (indexBelow found))]
  exact ⟨mu, found, rfl⟩

theorem livesKeptLoad {name note : String} {owner : Option Nat}
    (h : t.load name note owner = .ok (t', id)) : LivesKept t t' := by
  rcases loadOk h with ⟨-, -, -, -, rfl⟩ | created
  · intro id' mu found
    obtain ⟨mu₁, found₁, live₁⟩ :=
      livesKeptModify (fun m => { m with refs := m.refs + 1 }) (fun _ => rfl) id id' mu found
    split
    · obtain ⟨mu₂, found₂, live₂⟩ :=
        livesKeptModify (fun m => { m with owner := owner }) (fun _ => rfl) id id' mu₁ found₁
      exact ⟨mu₂, found₂, live₂.trans live₁⟩
    · exact ⟨mu₁, found₁, live₁⟩
  · exact livesKeptCreate created

theorem Sound.liveAfter (sound : t.Sound) (found : t.get? id = some mu) (op : LockOp) :
    ∃ mu', (t.apply op).get? id = some mu' ∧ (mu'.live = true ↔
      mu.live = true ∧ ¬((op = .removeRef id ∧ mu.refs = 1) ∨ op = .dropRegistry)) := by
  -- for the operations that keep liveness the right side is `mu.live = true`
  have kept : LivesKept t (t.apply op) → ¬((op = .removeRef id ∧ mu.refs = 1) ∨
      op = .dropRegistry) → ∃ mu', (t.apply op).get? id = some mu' ∧ (mu'.live = true ↔
        mu.live = true ∧ ¬((op = .removeRef id ∧ mu.refs = 1) ∨ op = .dropRegistry)) := by
    intro keeps other
    obtain ⟨mu', found', live⟩ := keeps id mu found
    exact ⟨mu', found', by simp [live, other]⟩
  cases op with
  | create name note owner =>
    refine kept ?_ (by simp)
    simp only [LockTable.apply]
    split
    · exact livesKeptCreate ‹_›
    · exact fun id mu found => ⟨mu, found, rfl⟩
  | load name note owner =>
    refine kept ?_ (by simp)
    simp only [LockTable.apply]
    split
    · exact livesKeptLoad ‹_›
    · exact fun id mu found => ⟨mu, found, rfl⟩
  | disown pid =>
    refine kept (fun id' mu' found' => ?_) (by simp)
    simp only [LockTable.apply, LockTable.disown]
    rw [getFoldModify (fun m : Mutex => { m with owner := none }) (fun _ => rfl), found']
    split
    · exact ⟨_, rfl, rfl⟩
    · exact ⟨mu', rfl, rfl⟩
  | addRef id' =>
    exact kept (livesKeptModify (fun m => { m with refs := m.refs + 1 }) (fun _ => rfl) id')
      (by simp)
  | setOwner id' owner =>
    refine kept (livesKeptModify (fun m => if m.live then { m with owner := owner } else m)
      (fun mu => ?_) id') (by simp)
    split <;> rfl
  | removeRef id' =>
    rw [LockTable.apply, getRemoveRef, found]
    by_cases same : id' = id
    · subst same
      refine ⟨mu.unref, by simp, ?_⟩
      unfold Mutex.unref
      split
      · simp_all
      split
      · rename_i more
        simp [show mu.refs ≠ 1 by omega]
      · rename_i zero more
        simp [show mu.refs = 1 by omega]
    · exact ⟨mu, by simp [same], by simp [same]⟩
  | dropRegistry =>
    rw [LockTable.apply, getDrop, found]
    split
    · exact ⟨_, rfl, by simp⟩
    · rename_i absent
      refine ⟨mu, rfl, ?_⟩
      simp only [reduceCtorEq, and_false, or_true, not_true_eq_false, and_false, iff_false]
      intro live
      obtain ⟨r, reg, occ⟩ := sound.seated id mu found live
      exact absent (memEnum reg occ)

theorem Sound.liveIff (sound : t.Sound) (name : String) : t.live? name = some id ↔
    ∃ mu, t.get? id = some mu ∧ mu.live = true ∧ mu.name = name := by
  constructor
  · intro h
    unfold live? at h
    cases reg : t.registry with
    | none => simp [reg] at h
    | some r =>
      cases at_ : r.slotNames.findIdx? (· == name) with
      | none => simp [reg, at_] at h
      | some s =>
        simp only [reg, at_, Option.bind_eq_bind, Option.bind_some, Option.bind_eq_some_iff,
          exists_eq_right] at h
        obtain ⟨mu, found, -, named, live, -⟩ := sound.occupants r reg s id h
        obtain ⟨hs, hname, -⟩ := Array.findIdx?_eq_some_iff_getElem.mp at_
        rw [Array.getElem?_eq_getElem hs, Option.some.injEq] at named
        exact ⟨mu, found, live, by simpa [named] using hname⟩
  · rintro ⟨mu, found, live, rfl⟩
    obtain ⟨r, reg, occ⟩ := sound.seated id mu found live
    obtain ⟨mu', found', -, named, -, -⟩ := sound.occupants r reg mu.slot id occ
    rw [found, Option.some.injEq] at found'
    subst found'
    simp [live?, reg, findName (sound.names r reg).1 named, occ]

theorem removeRefRegistry (t : LockTable) (id : MutexId) :
    (t.removeRef id).registry = t.registry ∨ ∃ r s, t.registry = some r ∧
      (t.removeRef id).registry = some { r with occupant := r.occupant.set! s none } := by
  unfold LockTable.removeRef
  split
  · exact .inl rfl
  split
  · exact .inl rfl
  split
  · exact .inl rfl
  dsimp only
  split
  · exact .inl rfl
  split
  · rename_i r reg
    split
    · exact .inr ⟨r, _, reg, rfl⟩
    · exact .inl rfl
  · exact .inl rfl

theorem loadRegistry {name note : String} {owner : Option Nat}
    (h : t.load name note owner = .ok (t', id)) :
    t'.registry = t.registry ∨ t.create name note owner = .ok (t', id) := by
  rcases loadOk h with ⟨-, -, -, -, rfl⟩ | created
  · left
    split <;> rfl
  · exact .inr created

theorem createRegistry {name note : String} {owner : Option Nat} {r r' : Registry}
    (sound : t.Sound) (h : t.create name note owner = .ok (t', id)) (reg : t.registry = some r)
    (reg' : t'.registry = some r') : r.slotNames.toList <+: r'.slotNames.toList := by
  obtain ⟨r₀, r₁, s, reg₀, slot, -, -, rfl⟩ := createOk h
  rw [reg, Option.some.injEq] at reg₀
  subst reg₀
  cases reg'
  exact (slotForSpec (sound.names r reg) slot).2.2.1

theorem Sound.namesGrow (sound : t.Sound) {r r' : Registry} (reg : t.registry = some r) :
    ∀ op, (t.apply op).registry = some r' → r.slotNames.toList <+: r'.slotNames.toList := by
  have same : (t.registry = some r' → r.slotNames.toList <+: r'.slotNames.toList) := by
    intro reg'
    rw [reg, Option.some.injEq] at reg'
    subst reg'
    exact List.prefix_refl _
  intro op reg'
  cases op with
  | create name note owner =>
    simp only [LockTable.apply] at reg'
    split at reg'
    · exact createRegistry sound ‹_› reg reg'
    · exact same reg'
  | load name note owner =>
    simp only [LockTable.apply] at reg'
    split at reg'
    · rename_i loaded
      rcases loadRegistry loaded with kept | created
      · exact same (kept ▸ reg')
      · exact createRegistry sound created reg reg'
    · exact same reg'
  | disown pid =>
    simp only [LockTable.apply, LockTable.disown, registryFoldModify] at reg'
    exact same reg'
  | addRef id => exact same reg'
  | setOwner id owner => exact same reg'
  | removeRef id =>
    simp only [LockTable.apply] at reg'
    rcases removeRefRegistry t id with kept | ⟨r₀, s, reg₀, cleared⟩
    · exact same (kept ▸ reg')
    · rw [reg, Option.some.injEq] at reg₀
      subst reg₀
      rw [cleared, Option.some.injEq] at reg'
      subst reg'
      exact List.prefix_refl _
  | dropRegistry => simp [LockTable.apply] at reg'

/-! After the registry is dropped. -/

/-- A table whose registry is gone: every lock reads as dead and ownerless, no owner can be
set, nothing can be created or loaded, and no name finds a lock. -/
structure Abandoned (t : LockTable) : Prop where
  gone : t.registry = none
  dead : ∀ id mu, t.get? id = some mu → mu.shownName = "<dead>" ∧ mu.currentOwner = none
  ownerFixed : ∀ id owner, t.setOwner id owner = t
  refused : ∀ name note owner,
    t.create name note owner = .error (.entityUnavailable .lockRegistry) ∧
      t.load name note owner = .error (.entityUnavailable .lockRegistry)
  unfound : ∀ name, t.live? name = none

theorem registryGone (gone : t.registry = none) : ∀ op, (t.apply op).registry = none
  | .create name note owner => by simp [LockTable.apply, LockTable.create, gone]
  | .load name note owner => by simp [LockTable.apply, LockTable.load, gone]
  | .disown pid => by simp [LockTable.apply, LockTable.disown, registryFoldModify, gone]
  | .addRef id => gone
  | .setOwner id owner => gone
  | .removeRef id => by
    rcases removeRefRegistry t id with kept | ⟨r, s, reg, -⟩
    · exact kept.trans gone
    · simp [gone] at reg
  | .dropRegistry => rfl

theorem abandonedOf (sound : t.Sound) (gone : t.registry = none) : t.Abandoned where
  gone := gone
  dead id mu found := by simp [Mutex.shownName, Mutex.currentOwner, sound.noLive gone found]
  ownerFixed id owner := by
    unfold LockTable.setOwner
    exact modifyFixed fun mu found => by simp [sound.noLive gone found]
  refused name note owner := by simp [LockTable.create, LockTable.load, gone]
  unfound name := by simp [live?, gone]

theorem registryGoneAll (ops : List LockOp) :
    ∀ {t : LockTable}, t.registry = none → (t.applyAll ops).registry = none := by
  induction ops with
  | nil => exact fun gone => gone
  | cons op ops ih => exact fun gone => ih (registryGone gone op)

theorem abandonedAfterDrop (sound : t.Sound) (ops : List LockOp) :
    (t.dropRegistry.applyAll ops).Abandoned :=
  abandonedOf (sound.dropRegistry.applyAll ops) (registryGoneAll ops rfl)

/-! The laws along every sequence of operations. -/

theorem Sound.neverSeated (ops : List LockOp) : ∀ {t : LockTable} {mu : Mutex}, t.Sound →
    t.get? id = some mu → ¬t.Seated id → ¬(t.applyAll ops).Seated id := by
  induction ops with
  | nil => exact fun _ _ out => out
  | cons op ops ih =>
    intro t mu sound found out
    have dead : mu.live = false := by
      cases live : mu.live
      · rfl
      · exact absurd (sound.seatedIff.mpr ⟨mu, found, live⟩) out
    obtain ⟨mu', found', live'⟩ := sound.liveAfter found op
    refine ih (sound.apply op) found' fun seated => ?_
    obtain ⟨mu'', found'', back⟩ := (sound.apply op).seatedIff.mp seated
    rw [found', Option.some.injEq] at found''
    subst found''
    simp [live'.mp back] at dead

/-- What holds of every lock table reached from a fresh registry: its bookkeeping is sound
and a slot holds at most one live lock; an operation only adds names; a lock leaves its slot
exactly when its last reference goes or the registry is dropped, and then never comes back,
even if references are added later; taking a reference from a lock that has none changes
nothing; a query finds the live lock of a name; and once the registry is dropped, whatever
is done, the table is abandoned. -/
structure Laws (t : LockTable) : Prop where
  sound : t.Sound
  alone : ∀ id id' mu mu', t.get? id = some mu → t.get? id' = some mu' → mu.live = true →
    mu'.live = true → mu.slot = mu'.slot → id = id'
  namesKept : ∀ op r r', t.registry = some r → (t.apply op).registry = some r' →
    r.slotNames.toList <+: r'.slotNames.toList
  leaves : ∀ op id, t.Seated id → (¬(t.apply op).Seated id ↔
    (op = .removeRef id ∧ ∃ mu, t.get? id = some mu ∧ mu.refs = 1) ∨ op = .dropRegistry)
  never : ∀ ops id mu, t.get? id = some mu → ¬t.Seated id → ¬(t.applyAll ops).Seated id
  noRefs : ∀ id mu, t.get? id = some mu → mu.refs = 0 → t.removeRef id = t
  query : ∀ name id, t.live? name = some id ↔
    ∃ mu, t.get? id = some mu ∧ mu.live = true ∧ mu.name = name
  dropped : ∀ ops, ((t.apply .dropRegistry).applyAll ops).Abandoned

theorem Sound.laws (sound : t.Sound) : t.Laws where
  sound := sound
  alone id id' mu mu' found found' live live' slot := by
    obtain ⟨r, reg, occ⟩ := sound.seated id mu found live
    obtain ⟨r', reg', occ'⟩ := sound.seated id' mu' found' live'
    rw [reg, Option.some.injEq] at reg'
    subst reg'
    rw [← slot, occ] at occ'
    simpa using occ'
  namesKept op r r' reg reg' := sound.namesGrow reg op reg'
  leaves op id seated := by
    obtain ⟨mu, found, live⟩ := sound.seatedIff.mp seated
    obtain ⟨mu', found', live'⟩ := sound.liveAfter found op
    rw [(sound.apply op).seatedIff]
    constructor
    · intro out
      have dies : mu'.live = false := by
        cases h : mu'.live
        · rfl
        · exact absurd ⟨mu', found', h⟩ out
      have cause := live'.not.mp (by simp [dies])
      simp only [live, true_and, not_not] at cause
      rcases cause with ⟨rfl, one⟩ | rfl
      · exact .inl ⟨rfl, mu, found, one⟩
      · exact .inr rfl
    · intro cause ⟨mu'', found'', back⟩
      rw [found', Option.some.injEq] at found''
      subst found''
      refine (live'.mp back).2 ?_
      rcases cause with ⟨rfl, mu₀, found₀, one⟩ | rfl
      · rw [found, Option.some.injEq] at found₀
        subst found₀
        exact .inl ⟨rfl, one⟩
      · exact .inr rfl
  never ops id mu found out := sound.neverSeated ops found out
  noRefs id mu found zero := by
    unfold LockTable.removeRef
    simp [found, zero]
  query name id := sound.liveIff name
  dropped ops := abandonedAfterDrop sound ops

/-- Every sequence of operations on a fresh registry reaches a table with the laws of the
registry. -/
theorem lawsAfterOperations (ops : List LockOp) : (fresh.applyAll ops).Laws :=
  (freshSound.applyAll ops).laws

end LockTable

end ScriptEngine
