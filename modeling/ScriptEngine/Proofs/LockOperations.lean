import ScriptEngine.Proofs.LockRegistry
/-!
What each operation of the lock registry answers. A creation succeeds exactly when no live
lock has the name, and then puts a new lock with one reference in the name's slot, making the
slot only for a new name. A load refuses exactly when the live lock of the name belongs to
another owner, or to one when none is asked for; otherwise it takes one more reference to that
lock, stamping a given owner on it, and without a live lock it creates one. A refused creation
or load changes nothing, and without a registry both are refused. Disowning clears exactly
the owners equal to the process, and the enumeration lists each live lock of the owner once.
-/
namespace ScriptEngine

namespace LockTable

variable {t t' : LockTable} {r : Registry} {id : MutexId} {mu : Mutex} {name note : String}
  {owner : Option Nat}

theorem liveSlot (reg : t.registry = some r) : t.live? name = some id ↔
    ∃ s, r.slotNames.findIdx? (· == name) = some s ∧ r.occupant[s]? = some (some id) := by
  simp [live?, reg, Option.bind_eq_some_iff]

theorem liveNone (reg : t.registry = some r) : t.live? name = none ↔
    ∀ s, r.slotNames.findIdx? (· == name) = some s → ∀ x, r.occupant[s]? ≠ some (some x) := by
  rw [Option.eq_none_iff_forall_ne_some]
  constructor
  · intro free s at_ x occ
    exact free x ((liveSlot reg).mpr ⟨s, at_, occ⟩)
  · intro empty x live
    obtain ⟨s, at_, occ⟩ := (liveSlot reg).mp live
    exact empty s at_ x occ

theorem createLocked (reg : t.registry = some r) (live : t.live? name = some id) :
    t.create name note owner = .error .alreadyLocked ∧ (slotFor r name).1 = r := by
  obtain ⟨s, at_, occ⟩ := (liveSlot reg).mp live
  have slot : slotFor r name = (r, s) := by simp [slotFor, at_]
  refine ⟨?_, by rw [slot]⟩
  simp [LockTable.create, reg, slot, occ]

theorem createFree (names : r.occupant.size = r.slotNames.size) (reg : t.registry = some r)
    (free : t.live? name = none) : ∃ t', t.create name note owner = .ok (t', ⟨t.mutexes.size⟩) := by
  rcases at_ : r.slotNames.findIdx? (· == name) with _ | s
  · -- a new name gets a new slot, empty
    simp [LockTable.create, reg, slotFor, at_, ← names]
  · have slot : slotFor r name = (r, s) := by simp [slotFor, at_]
    -- the name's slot is empty, which settles the creation's test
    have empty := (liveNone reg).mp free s at_
    simp only [LockTable.create, reg, slot]
    exact ⟨_, rfl⟩

theorem slotForNames (r : Registry) (name : String) :
    (slotFor r name).1.slotNames.toList =
      if name ∈ r.slotNames.toList then r.slotNames.toList else r.slotNames.toList ++ [name] := by
  unfold slotFor
  split
  · rename_i s at_
    obtain ⟨hs, named, -⟩ := Array.findIdx?_eq_some_iff_getElem.mp at_
    have mem : name ∈ r.slotNames.toList := by
      rw [← beq_iff_eq.mp named]
      exact Array.getElem_mem_toList hs
    simp [mem]
  · rename_i absent
    have out : name ∉ r.slotNames.toList := fun mem => by
      simpa using (Array.findIdx?_eq_none_iff.mp absent) name (by simpa using mem)
    simp [out]

/-- `t'` is `t` with a new lock `id` of `name`, made with `note` for `owner`: it has one
reference and holds the slot of `name`, made only if the name is new, and no other lock and no
other name's live lock changes. -/
structure Registers (t : LockTable) (r : Registry) (name note : String) (owner : Option Nat)
    (t' : LockTable) (id : MutexId) : Prop where
  fresh : id = ⟨t.mutexes.size⟩
  made : ∃ s, t'.get? id =
    some { name := name, note := note, slot := s, refs := 1, owner := owner, live := true }
  named : t'.live? name = some id
  slots : ∃ r', t'.registry = some r' ∧ r'.slotNames.toList =
    if name ∈ r.slotNames.toList then r.slotNames.toList else r.slotNames.toList ++ [name]
  others : ∀ id', id' ≠ id → t'.get? id' = t.get? id'
  otherNames : ∀ name', name' ≠ name → t'.live? name' = t.live? name'

theorem createRegisters (sound : t.Sound) (reg : t.registry = some r)
    (h : t.create name note owner = .ok (t', id)) : Registers t r name note owner t' id := by
  have sound' := sound.create h
  obtain ⟨r₀, r', s, reg₀, slot, -, rfl, built⟩ := createOk h
  rw [reg, Option.some.injEq] at reg₀
  subst reg₀
  have made : ∀ id', t'.get? id' = if id' = ⟨t.mutexes.size⟩ then
      some { name := name, note := note, slot := s, owner := owner } else t.get? id' := by
    rintro ⟨i⟩
    simp [built, getPush]
  refine ⟨rfl, ⟨s, by rw [made, if_pos rfl]⟩, ?_, ⟨_, by rw [built], ?_⟩,
    fun id' other => by rw [made, if_neg other], fun name' other => ?_⟩
  · exact (sound'.liveIff name).mpr ⟨_, by rw [made, if_pos rfl], rfl, rfl⟩
  · show r'.slotNames.toList = _
    rw [← slotForNames, slot]
  · -- the new lock has another name, and every other lock is as it was
    refine Option.ext fun x => ?_
    rw [sound'.liveIff, sound.liveIff, made]
    by_cases new : x = ⟨t.mutexes.size⟩
    · subst new
      have none : t.get? ⟨t.mutexes.size⟩ = none := by simp [get?]
      rw [if_pos rfl, none]
      constructor
      · rintro ⟨_, ⟨⟩, -, named⟩
        exact absurd named.symm other
      · rintro ⟨_, ⟨⟩, -⟩
    · rw [if_neg new]

theorem registryOfLive (live : t.live? name = some id) : ∃ r, t.registry = some r := by
  cases reg : t.registry with
  | none => simp [live?, reg] at live
  | some r => exact ⟨r, rfl⟩

theorem liveFound (sound : t.Sound) (live : t.live? name = some id) (found : t.get? id = some mu) :
    mu.live = true ∧ mu.name = name := by
  obtain ⟨mu', found', alive, named⟩ := (sound.liveIff name).mp live
  rw [found, Option.some.injEq] at found'
  subst found'
  exact ⟨alive, named⟩

theorem liveNoneIff (sound : t.Sound) :
    t.live? name = none ↔ ∀ id mu, t.get? id = some mu → mu.live = true → mu.name ≠ name := by
  rw [Option.eq_none_iff_forall_ne_some]
  constructor
  · intro free id mu found alive named
    exact free id ((sound.liveIff name).mpr ⟨mu, found, alive, named⟩)
  · intro none id live
    obtain ⟨mu, found, alive, named⟩ := (sound.liveIff name).mp live
    exact none id mu found alive named

theorem loadConflict (sound : t.Sound) (live : t.live? name = some id) (found : t.get? id = some mu)
    (clash : mu.owner.isSome ∧ mu.owner ≠ owner) :
    t.load name note owner = .error .incompatibleLocks := by
  obtain ⟨r, reg⟩ := registryOfLive live
  have alive := (liveFound sound live found).1
  simp [LockTable.load, reg, live, found, Mutex.currentOwner, alive, clash]

/-- `t'` is `t` with the live lock `id` holding one reference more and taken over by `owner`
if one is given; nothing else changes. -/
structure Reuses (t : LockTable) (id : MutexId) (mu : Mutex) (owner : Option Nat) (t' : LockTable) :
    Prop where
  lock : t'.get? id = some { mu with refs := mu.refs + 1, owner := owner.or mu.owner }
  others : ∀ id', id' ≠ id → t'.get? id' = t.get? id'
  registry : t'.registry = t.registry

theorem loadReuse (sound : t.Sound) (live : t.live? name = some id) (found : t.get? id = some mu)
    (fits : mu.owner = none ∨ mu.owner = owner) :
    ∃ t', t.load name note owner = .ok (t', id) ∧ Reuses t id mu owner t' := by
  obtain ⟨r, reg⟩ := registryOfLive live
  have alive := (liveFound sound live found).1
  have agrees : ¬(mu.owner.isSome = true ∧ mu.owner ≠ owner) := by
    rcases fits with same | same <;> simp [same]
  -- one more reference, and then the owner if one is given
  let counted := t.modify id fun m => { m with refs := m.refs + 1 }
  have others : ∀ id', id' ≠ id → counted.get? id' = t.get? id' := fun id' other => by
    rw [getModify, if_neg (Ne.symm other)]
  rcases owner with _ | o
  · refine ⟨counted, by simp [counted, LockTable.load, reg, live, found, Mutex.currentOwner, alive, agrees],
      by simp [counted, getModify, found], others, rfl⟩
  · refine ⟨counted.modify id fun m => { m with owner := some o },
      by simp [counted, LockTable.load, reg, live, found, Mutex.currentOwner, alive, agrees],
      by simp [counted, getModify, found], fun id' other => ?_, rfl⟩
    rw [getModify, if_neg (Ne.symm other), others id' other]

theorem loadFree (reg : t.registry = some r) (free : t.live? name = none) :
    t.load name note owner = t.create name note owner := by
  simp [LockTable.load, reg, free]

theorem loadRefused (sound : t.Sound) (reg : t.registry = some r) :
    t.load name note owner = .error .incompatibleLocks ↔
      ∃ id mu, t.live? name = some id ∧ t.get? id = some mu ∧ mu.owner.isSome ∧ mu.owner ≠ owner := by
  constructor
  · intro refused
    rcases live : t.live? name with _ | id
    · -- without a live lock the load is a creation, which succeeds
      obtain ⟨t', made⟩ : ∃ t', t.create name note owner = .ok (t', ⟨t.mutexes.size⟩) :=
        createFree (sound.names r reg).2 reg live
      rw [loadFree reg live, made] at refused
      cases refused
    · obtain ⟨mu, found, -⟩ := (sound.liveIff name).mp live
      refine ⟨id, mu, rfl, found, ?_⟩
      by_contra agree
      have fits : mu.owner = none ∨ mu.owner = owner := by
        rcases held : mu.owner with _ | q
        · exact .inl rfl
        · exact .inr (by_contra fun other => agree ⟨by simp [held], by rw [held]; exact other⟩)
      obtain ⟨t', loaded, -⟩ : ∃ t', t.load name note owner = .ok (t', id) ∧ Reuses t id mu owner t' :=
        loadReuse sound live found fits
      rw [loaded] at refused
      cases refused
  · rintro ⟨id, mu, live, found, clash⟩
    exact loadConflict sound live found clash

theorem memEnumIff (sound : t.Sound) (owner : Option Nat) (id : MutexId) :
    id ∈ t.enum owner ↔
      ∃ mu, t.get? id = some mu ∧ mu.live = true ∧ (owner = none ∨ mu.owner = owner) := by
  unfold enum
  cases reg : t.registry with
  | none =>
    simp only [List.not_mem_nil, false_iff, not_exists, not_and]
    intro mu found alive
    simp [sound.noLive reg found] at alive
  | some r =>
    simp only [List.mem_filter, List.mem_filterMap, id_eq, exists_eq_right]
    constructor
    · rintro ⟨mem, keep⟩
      obtain ⟨s, occ⟩ := List.mem_iff_getElem?.mp mem
      obtain ⟨mu, found, -, -, alive, -⟩ := sound.occupants r reg s id (by simpa using occ)
      refine ⟨mu, found, alive, ?_⟩
      rcases owner with _ | q
      · exact .inl rfl
      · simp [found, Mutex.currentOwner, alive] at keep
        exact .inr keep
    · rintro ⟨mu, found, alive, which⟩
      obtain ⟨r', reg', occ⟩ := sound.seated id mu found alive
      rw [reg, Option.some.injEq] at reg'
      subst reg'
      refine ⟨List.mem_iff_getElem?.mpr ⟨mu.slot, by simpa using occ⟩, ?_⟩
      rcases which with rfl | same
      · simp
      · simp [found, Mutex.currentOwner, alive, same]

theorem filterMapNodup {α : Type} : ∀ {l : List (Option α)},
    (∀ (i j : Nat) (x : α), l[i]? = some (some x) → l[j]? = some (some x) → i = j) →
      (l.filterMap fun o => o).Nodup
  | [], _ => List.nodup_nil
  | a :: l, single => by
    have rest : (l.filterMap fun o => o).Nodup := filterMapNodup fun i j x atI atJ => by
      have := single (i + 1) (j + 1) x (by simpa using atI) (by simpa using atJ)
      omega
    cases a with
    | none => simpa using rest
    | some x =>
      refine List.nodup_cons.mpr ⟨fun mem => ?_, rest⟩
      obtain ⟨a, mem', same⟩ := List.mem_filterMap.mp mem
      obtain ⟨j, at_⟩ := List.mem_iff_getElem?.mp mem'
      have := single 0 (j + 1) x rfl (by simpa [← same] using at_)
      omega

theorem enumNodup (sound : t.Sound) (owner : Option Nat) : (t.enum owner).Nodup := by
  unfold enum
  cases reg : t.registry with
  | none => exact List.nodup_nil
  | some r =>
    refine List.Nodup.filter _ (filterMapNodup fun i j x atI atJ => ?_)
    -- a lock occupies only the slot it was made for
    obtain ⟨mu, found, slotI, -⟩ := sound.occupants r reg i x (by simpa using atI)
    obtain ⟨mu', found', slotJ, -⟩ := sound.occupants r reg j x (by simpa using atJ)
    rw [found, Option.some.injEq] at found'
    subst found'
    exact slotI.symm.trans slotJ

theorem getDisown (sound : t.Sound) (pid : Nat) (id : MutexId) :
    (t.disown pid).get? id = (t.get? id).map fun mu =>
      if mu.currentOwner = some pid then { mu with owner := none } else mu := by
  unfold disown
  rw [getFoldModify (fun m : Mutex => { m with owner := none }) (fun _ => rfl)]
  cases found : t.get? id with
  | none => simp
  | some mu =>
    by_cases owned : mu.currentOwner = some pid
    · have alive : mu.live = true := by
        by_contra dead
        simp [Mutex.currentOwner, dead] at owned
      have listed : id ∈ t.enum (some pid) :=
        (memEnumIff sound _ id).mpr ⟨mu, found, alive, .inr (by simpa [Mutex.currentOwner, alive] using owned)⟩
      simp [listed, owned]
    · have unlisted : id ∉ t.enum (some pid) := fun listed => by
        obtain ⟨mu', found', alive, which⟩ := (memEnumIff sound _ id).mp listed
        rw [found, Option.some.injEq] at found'
        subst found'
        simp only [Mutex.currentOwner, alive, if_true] at owned
        rcases which with which | which
        · cases which
        · exact owned which
      simp [unlisted, owned]

/-- What the registry's operations answer, from a table with sound bookkeeping: creating,
loading, refusing, disowning and listing, each exactly. -/
structure Answers (t : LockTable) : Prop where
  create : ∀ r name note owner, t.registry = some r →
    ((∃ t' id, t.create name note owner = .ok (t', id)) ↔
      ∀ id mu, t.get? id = some mu → mu.live = true → mu.name ≠ name)
  created : ∀ r name note owner t' id, t.registry = some r →
    t.create name note owner = .ok (t', id) → Registers t r name note owner t' id
  locked : ∀ r name note owner id, t.registry = some r → t.live? name = some id →
    t.create name note owner = .error .alreadyLocked ∧ (slotFor r name).1 = r
  conflict : ∀ r name note owner, t.registry = some r →
    (t.load name note owner = .error .incompatibleLocks ↔ ∃ id mu, t.get? id = some mu ∧
      mu.live = true ∧ mu.name = name ∧ mu.owner.isSome ∧ mu.owner ≠ owner)
  reused : ∀ name note owner id mu, t.live? name = some id → t.get? id = some mu →
    (mu.owner = none ∨ mu.owner = owner) →
      ∃ t', t.load name note owner = .ok (t', id) ∧ Reuses t id mu owner t'
  fallback : ∀ r name note owner, t.registry = some r → t.live? name = none →
    t.load name note owner = t.create name note owner
  detached : t.registry = none → ∀ name note owner,
    t.create name note owner = .error (.entityUnavailable .lockRegistry) ∧
      t.load name note owner = .error (.entityUnavailable .lockRegistry)
  refusedKeeps : ∀ name note owner e,
    (t.create name note owner = .error e → t.apply (.create name note owner) = t) ∧
      (t.load name note owner = .error e → t.apply (.load name note owner) = t)
  disown : ∀ pid id, (t.disown pid).get? id = (t.get? id).map (fun mu =>
      if mu.currentOwner = some pid then { mu with owner := none } else mu) ∧
    (t.disown pid).registry = t.registry
  listed : ∀ owner id, id ∈ t.enum owner ↔
    ∃ mu, t.get? id = some mu ∧ mu.live = true ∧ (owner = none ∨ mu.owner = owner)
  listedOnce : ∀ owner, (t.enum owner).Nodup

theorem registryOperationsExact (sound : t.Sound) : t.Answers where
  create r name note owner reg := by
    rw [← liveNoneIff sound]
    constructor
    · rintro ⟨t', id, made⟩
      rcases live : t.live? name with _ | id'
      · rfl
      · rw [(createLocked reg live).1] at made
        cases made
    · intro free
      obtain ⟨t', made⟩ : ∃ t', t.create name note owner = .ok (t', ⟨t.mutexes.size⟩) :=
        createFree (sound.names r reg).2 reg free
      exact ⟨t', _, made⟩
  created _ _ _ _ _ _ reg h := createRegisters sound reg h
  locked _ _ _ _ _ reg live := createLocked reg live
  conflict _ name _ _ reg := by
    rw [loadRefused sound reg]
    constructor
    · rintro ⟨id, mu, live, found, clash⟩
      exact ⟨id, mu, found, (liveFound sound live found).1, (liveFound sound live found).2, clash⟩
    · rintro ⟨id, mu, found, alive, named, clash⟩
      exact ⟨id, mu, (sound.liveIff name).mpr ⟨mu, found, alive, named⟩, found, clash⟩
  reused _ _ _ _ _ live found fits := loadReuse sound live found fits
  fallback _ _ _ _ reg free := loadFree reg free
  detached gone := (abandonedOf sound gone).refused
  refusedKeeps _ _ _ _ := ⟨fun h => by simp [LockTable.apply, h], fun h => by simp [LockTable.apply, h]⟩
  disown pid id := ⟨getDisown sound pid id, registryFoldModify _ _ t⟩
  listed owner id := memEnumIff sound owner id
  listedOnce owner := enumNodup sound owner

/-- A registry in which process 1 has locked the door and loaded it once more answers as
stated. -/
theorem lockedDoorAnswers :
    (fresh.applyAll [.create "door" "front" (some 1), .load "door" "" (some 1)]).Sound ∧
      (fresh.applyAll [.create "door" "front" (some 1), .load "door" "" (some 1)]).Answers :=
  ⟨freshSound.applyAll _, registryOperationsExact (freshSound.applyAll _)⟩

example : ((fresh.apply (.create "door" "" (some 1))).load "door" "" (some 2)).toOption.isNone ∧
    ((fresh.apply (.create "door" "" (some 1))).load "door" "" (some 1)).toOption.map
      (fun made => (made.1.get? made.2).map (·.refs)) = some (some 2) := by
  decide +kernel

end LockTable

end ScriptEngine
