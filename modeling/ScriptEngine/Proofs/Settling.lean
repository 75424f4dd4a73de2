import ScriptEngine.Proofs.LockRegistry
import ScriptEngine.Machine.Lifetime
/-!
What settling does. Settling keeps the held references and contexts that something living
refers to and ends the others: a context lives on while a root or a living context refers
to it, a held reference while a root or a living context holds a value with it, and a held
reference that ends gives its reference back to its lock. The roots are the literals of the
units, the values, locals and results of the processes, their context stacks and the
contexts the host keeps.
-/
namespace ScriptEngine

namespace Mutex

theorem unrefRefs (mu : Mutex) : mu.unref.refs = mu.refs - 1 := by
  unfold unref
  split
  · omega
  · split
    · rfl
    · show 0 = mu.refs - 1
      omega

theorem unrefLive (mu : Mutex) (counts : 0 < mu.unref.refs) : mu.unref.live = mu.live := by
  rw [unrefRefs] at counts
  unfold unref
  -- with a reference left over the lock keeps its life
  rw [if_neg (by omega), if_pos (by omega)]

end Mutex

namespace LockTable

/-- The references lock `id` counts; none for a lock that was never made. -/
def refsOf (t : LockTable) (id : MutexId) : Nat := ((t.get? id).map (·.refs)).getD 0

/-- A lock that counts references is live. -/
def Revived (t : LockTable) (id : MutexId) : Prop :=
  ∀ mu, t.get? id = some mu → 0 < mu.refs → mu.live = true

theorem refsOfRemoveRef (t : LockTable) (id id' : MutexId) :
    (t.removeRef id).refsOf id' = if id = id' then t.refsOf id' - 1 else t.refsOf id' := by
  unfold refsOf
  rw [getRemoveRef]
  split
  · cases t.get? id' <;> simp [Mutex.unrefRefs]
  · rfl

theorem Revived.removeRef {t : LockTable} {id' : MutexId} (revived : t.Revived id') (id : MutexId) :
    (t.removeRef id).Revived id' := by
  intro mu found counts
  rw [getRemoveRef] at found
  split at found
  · obtain ⟨mu₀, found₀, rfl⟩ := Option.map_eq_some_iff.mp found
    rw [Mutex.unrefLive mu₀ counts]
    exact revived mu₀ found₀ (by rw [Mutex.unrefRefs] at counts; omega)
  · exact revived mu found counts

end LockTable

namespace Machine

section Referred

variable {vs : List Value}

theorem referredFold {g : List ContextId × List HoldId → Value → List ContextId × List HoldId}
    (context : ∀ acc c, g acc (.context c) = (c :: acc.1, acc.2))
    (lock : ∀ acc h mu, g acc (.lock h mu) = (acc.1, h :: acc.2))
    (other : ∀ acc v, (∀ c, v ≠ .context c) → (∀ h mu, v ≠ .lock h mu) → g acc v = acc) :
    ∀ (vs : List Value) acc, (∀ c, c ∈ (vs.foldl g acc).1 ↔ c ∈ acc.1 ∨ Value.context c ∈ vs) ∧
      (∀ h, h ∈ (vs.foldl g acc).2 ↔ h ∈ acc.2 ∨ ∃ mu, Value.lock h mu ∈ vs)
  | [], acc => by simp
  | v :: vs, acc => by
    obtain ⟨contexts, holds⟩ := referredFold context lock other vs (g acc v)
    rw [List.foldl_cons]
    cases v with
    | context d =>
      rw [context] at contexts holds ⊢
      exact ⟨fun c => by simp [contexts, or_assoc, or_left_comm],
        fun h => by simp [holds]⟩
    | lock h' mu =>
      rw [lock] at contexts holds ⊢
      refine ⟨fun c => by simp [contexts], fun h => ?_⟩
      simp only [holds, List.mem_cons, Value.lock.injEq]
      constructor
      · rintro ((rfl | inAcc) | ⟨mu', inVs⟩)
        · exact .inr ⟨mu, .inl ⟨rfl, rfl⟩⟩
        · exact .inl inAcc
        · exact .inr ⟨mu', .inr inVs⟩
      · rintro (inAcc | ⟨mu', (⟨rfl, rfl⟩ | inVs)⟩)
        · exact .inl (.inr inAcc)
        · exact .inl (.inl rfl)
        · exact .inr ⟨mu', inVs⟩
    | _ =>
      rw [other _ _ (by simp) (by simp)] at contexts holds ⊢
      exact ⟨fun c => by simp [contexts], fun h => by simp [holds]⟩

theorem memReferredContexts (c : ContextId) : c ∈ (referred vs).1 ↔ Value.context c ∈ vs := by
  unfold referred
  rw [((referredFold (fun _ _ => rfl) (fun _ _ _ => rfl) (by intro _ v _ _; cases v <;> simp_all)
    vs ([], [])).1 c)]
  simp

theorem memReferredHolds (h : HoldId) : h ∈ (referred vs).2 ↔ ∃ mu, Value.lock h mu ∈ vs := by
  unfold referred
  rw [((referredFold (fun _ _ => rfl) (fun _ _ _ => rfl) (by intro _ v _ _; cases v <;> simp_all)
    vs ([], [])).2 h)]
  simp

end Referred

theorem markAllFold (n j : Nat) : ∀ (ids : List Nat) (a : Array Bool), a.size = n →
    ((ids.foldl (fun a i => if i < n then a.set! i true else a) a)[j]?.getD false = true ↔
      a[j]?.getD false = true ∨ j < n ∧ j ∈ ids)
  | [], a, _ => by simp
  | i :: ids, a, size => by
    rw [List.foldl_cons, markAllFold n j ids _ (by split <;> simp [size])]
    by_cases inside : i < n
    · by_cases same : i = j
      · subst same
        simp [inside, size]
      · simp [inside, same, Ne.symm same]
    · simp only [inside, if_false, List.mem_cons]
      constructor
      · rintro (marked | ⟨below, mem⟩)
        · exact .inl marked
        · exact .inr ⟨below, .inr mem⟩
      · rintro (marked | ⟨below, rfl | mem⟩)
        · exact .inl marked
        · exact absurd below inside
        · exact .inr ⟨below, mem⟩

theorem markAllGet (n j : Nat) (ids : List Nat) :
    (markAll n ids)[j]?.getD false = true ↔ j < n ∧ j ∈ ids := by
  unfold markAll
  rw [markAllFold n j ids _ (by simp)]
  have unmarked : (Array.replicate n false)[j]?.getD false = false := by
    rw [Array.getElem?_replicate]
    split <;> rfl
  simp [unmarked]

theorem markAllSize (n : Nat) (ids : List Nat) : (markAll n ids).size = n := by
  unfold markAll
  suffices kept : ∀ (ids : List Nat) (a : Array Bool),
      (ids.foldl (fun a i => if i < n then a.set! i true else a) a).size = a.size by
    rw [kept]
    simp
  intro ids
  induction ids with
  | nil => intro a; rfl
  | cons i ids ih =>
    intro a
    rw [List.foldl_cons, ih]
    split <;> simp

theorem zipAndGet (a b : Array Bool) (j : Nat) :
    (a.zipWith (· && ·) b)[j]?.getD false = true ↔
      a[j]?.getD false = true ∧ b[j]?.getD false = true := by
  rw [Array.getElem?_zipWith]
  cases a[j]? <;> cases b[j]? <;> simp

theorem memIndices {α : Type} (index : α → Nat) (mk : Nat → α) (roundTrip : ∀ a, mk (index a) = a)
    (mkIndex : ∀ j, index (mk j) = j) {l : List α} {j : Nat} : j ∈ l.map index ↔ mk j ∈ l := by
  simp only [List.mem_map]
  constructor
  · rintro ⟨a, mem, rfl⟩
    rwa [roundTrip]
  · intro mem
    exact ⟨_, mem, mkIndex j⟩

theorem memRefersTo (c : Context) (d : ContextId) :
    d ∈ c.refersTo ↔ Value.context d ∈ c.values ∨ ∃ v, c = .frameView v ∧ d ∈ v.visible := by
  cases c with
  | bindings b =>
    simp only [Context.refersTo, Context.values, Array.mem_def, List.mem_filterMap,
      List.mem_map, reduceCtorEq, false_and, exists_false, or_false]
    constructor
    · rintro ⟨⟨n, v⟩, mem, found⟩
      cases v <;> simp at found
      subst found
      exact ⟨_, mem, rfl⟩
    · rintro ⟨⟨n, v⟩, mem, rfl⟩
      exact ⟨_, mem, rfl⟩
  | frameView v => simp [Context.refersTo, Context.values]

theorem contextFold {g : List ContextId → Value → List ContextId}
    (context : ∀ acc c, g acc (.context c) = c :: acc)
    (other : ∀ acc v, (∀ c, v ≠ .context c) → g acc v = acc) :
    ∀ (vs : List Value) acc d, d ∈ vs.foldl g acc ↔ d ∈ acc ∨ Value.context d ∈ vs
  | [], acc, d => by simp
  | v :: vs, acc, d => by
    rw [List.foldl_cons, contextFold context other vs]
    cases v with
    | context c => simp [context, or_assoc, or_left_comm]
    | _ => simp [other]

theorem stillReferredGet (m : Machine) (roots : List ContextId) (alive : Array Bool) (j : Nat) :
    (m.stillReferred roots alive)[j]?.getD false = true ↔
      alive[j]?.getD false = true ∧ j < m.contexts.size ∧
        ((⟨j⟩ : ContextId) ∈ roots ∨
          ∃ (k : Nat) (c : Context), m.contexts[k]? = some c ∧ alive[k]?.getD false = true ∧
            (⟨j⟩ : ContextId) ∈ c.refersTo) := by
  unfold stillReferred
  rw [zipAndGet, markAllGet, memIndices ContextId.index ContextId.mk (fun _ => rfl) (fun _ => rfl), List.mem_append,
    List.mem_flatMap]
  refine and_congr_right fun _ => and_congr_right fun _ => or_congr_right ?_
  constructor
  · rintro ⟨⟨c, k⟩, mem, inner⟩
    rw [List.mem_zipIdx_iff_getElem?, Array.getElem?_toList] at mem
    dsimp only at inner mem
    split at inner
    · rename_i living
      refine ⟨k, c, mem, living, (memRefersTo c _).mpr ?_⟩
      rw [List.mem_append, contextFold (fun _ _ => rfl) (by intro _ v _; cases v <;> simp_all)] at inner
      rcases inner with (absurd | direct) | seen
      · cases absurd
      · exact .inl direct
      · cases c with
        | bindings b => cases seen
        | frameView v => exact .inr ⟨v, rfl, Array.mem_def.mpr seen⟩
    · cases inner
  · rintro ⟨k, c, found, living, refers⟩
    refine ⟨(c, k), ?_, ?_⟩
    · rw [List.mem_zipIdx_iff_getElem?, Array.getElem?_toList]
      exact found
    · dsimp only
      rw [if_pos living, List.mem_append, contextFold (fun _ _ => rfl) (by intro _ v _; cases v <;> simp_all)]
      rcases (memRefersTo c _).mp refers with direct | ⟨v, rfl, seen⟩
      · exact .inl (.inr direct)
      · exact .inr (Array.mem_def.mp seen)

section Rounds

variable (m : Machine) (roots : List ContextId)

theorem settleContextsBelow : ∀ (fuel : Nat) (alive : Array Bool) (j : Nat),
    (m.settleContexts roots fuel alive)[j]?.getD false = true → alive[j]?.getD false = true
  | 0, _, _, living => living
  | fuel + 1, alive, j, living => by
    rw [settleContexts] at living
    split at living
    · exact living
    · exact ((m.stillReferredGet roots alive j).mp (settleContextsBelow fuel _ j living)).1

theorem settleContextsKeeps : ∀ (fuel : Nat) (alive : Array Bool) (j : Nat),
    alive[j]?.getD false = true → j < m.contexts.size →
    ((⟨j⟩ : ContextId) ∈ roots ∨ ∃ (k : Nat) (c : Context), m.contexts[k]? = some c ∧
      (m.settleContexts roots fuel alive)[k]?.getD false = true ∧ (⟨j⟩ : ContextId) ∈ c.refersTo) →
    (m.settleContexts roots fuel alive)[j]?.getD false = true
  | 0, _, _, living, _, _ => living
  | fuel + 1, alive, j, living, inside, referred => by
    rw [settleContexts] at referred ⊢
    split
    · exact living
    · rename_i changed
      rw [if_neg changed] at referred
      refine settleContextsKeeps fuel _ j ((m.stillReferredGet roots alive j).mpr ⟨living, inside, ?_⟩) inside
        referred
      rcases referred with root | ⟨k, c, found, alive', refers⟩
      · exact .inl root
      · exact .inr ⟨k, c, found, (m.stillReferredGet roots alive k).mp (settleContextsBelow m roots fuel _ k alive') |>.1,
          refers⟩


theorem countAndLe : ∀ (a b : List Bool), (List.zipWith (· && ·) a b).count true ≤ a.count true
  | [], _ => by simp
  | _ :: _, [] => by simp
  | x :: a, y :: b => by
    have tail := countAndLe a b
    cases x <;> cases y <;> simp <;> omega

theorem countAndLt : ∀ (a b : List Bool), a.length ≤ b.length →
    List.zipWith (· && ·) a b ≠ a → (List.zipWith (· && ·) a b).count true < a.count true
  | [], _, _, changed => absurd (by simp) changed
  | _ :: _, [], short, _ => by simp at short
  | x :: a, y :: b, short, changed => by
    have shorter : a.length ≤ b.length := by simpa using short
    rw [List.zipWith_cons_cons] at changed ⊢
    cases x with
    | false =>
      have tail : List.zipWith (· && ·) a b ≠ a := fun same => changed (by simp [same])
      simpa [List.count_cons] using countAndLt a b shorter tail
    | true =>
      cases y with
      | false =>
        have le := countAndLe a b
        simp
        omega
      | true =>
        have tail : List.zipWith (· && ·) a b ≠ a := fun same => changed (by simp [same])
        simpa [List.count_cons] using countAndLt a b shorter tail

theorem settleContextsFixed : ∀ (fuel : Nat) (alive : Array Bool), alive.size ≤ m.contexts.size →
    alive.toList.count true < fuel →
    m.stillReferred roots (m.settleContexts roots fuel alive) = m.settleContexts roots fuel alive
  | 0, _, _, few => absurd few (Nat.not_lt_zero _)
  | fuel + 1, alive, size, few => by
    rw [settleContexts]
    split
    · rename_i same
      exact eq_of_beq same
    · rename_i changed
      have round : ∃ ids, (m.stillReferred roots alive).toList =
          List.zipWith (· && ·) alive.toList (markAll m.contexts.size ids).toList := by
        unfold stillReferred
        exact ⟨_, Array.toList_zipWith⟩
      obtain ⟨ids, round⟩ := round
      have differs : (m.stillReferred roots alive).toList ≠ alive.toList := fun same =>
        changed (beq_iff_eq.mpr (Array.toList_inj.mp same))
      have fewer := countAndLt alive.toList _ (by simpa [markAllSize] using size) (round ▸ differs)
      refine settleContextsFixed fuel _ ?_ (by rw [round]; omega)
      unfold stillReferred
      simp only [Array.size_zipWith, markAllSize]
      omega
end Rounds

section Pieces

/-! Settling, taken apart: the contexts the roots keep, the contexts alive after the rounds,
the held references something living refers to, and one step over the held references. -/

/-- The contexts settling starts from. -/
def settleRoots (m : Machine) : List ContextId :=
  (referred m.rootValues).1 ++ m.hostContexts.toList ++ m.procs.toList.flatMap fun p => p.contexts.toList

/-- The contexts alive after settling. -/
def settledAlive (m : Machine) : Array Bool :=
  m.settleContexts m.settleRoots (m.contexts.size + 1) m.contextLive

/-- The held references a root or a context alive after settling refers to. -/
def settledHeld (m : Machine) : Array Bool :=
  markAll m.holds.size (((referred m.rootValues).2 ++ m.contexts.toList.zipIdx.flatMap fun x =>
    if m.settledAlive[x.2]?.getD false = true then (referred x.1.values).2 else []).map (·.index))

/-- Settling one held reference: one that is live but not held ends and gives its reference
back. -/
def settleStep (held : Array Bool) (acc : Array Hold × LockTable) (x : Hold × Nat) :
    Array Hold × LockTable :=
  if x.1.live && !(held[x.2]?.getD false) then (acc.1.push { x.1 with live := false }, acc.2.removeRef x.1.mutex)
  else (acc.1.push x.1, acc.2)

theorem settleLive {m : Machine} (live : m.holds.any (·.live) = true) :
    m.settle = { m with
      contextLive := m.settledAlive
      holds := (m.holds.zipIdx.foldl (settleStep m.settledHeld) (#[], m.locks)).1
      locks := (m.holds.zipIdx.foldl (settleStep m.settledHeld) (#[], m.locks)).2 } := by
  unfold settle
  rw [if_neg (by simp [live])]
  rfl

theorem settleIdle {m : Machine} (idle : m.holds.any (·.live) = false) : m.settle = m := by
  unfold settle
  rw [if_pos (by simp [idle])]

end Pieces

section Counted

/-- The live held references to lock `id` among `hs`. -/
def liveHolds (hs : List Hold) (id : MutexId) : Nat := hs.countP fun h => h.live && h.mutex == id

/-- Lock `id` belongs to the held references: it counts exactly its live held references and
is live while it counts any. The locks instructions make are of this kind. -/
structure Tracked (m : Machine) (id : MutexId) : Prop where
  counted : m.locks.refsOf id = liveHolds m.holds.toList id
  revived : m.locks.Revived id

theorem liveHoldsAppend (hs hs' : List Hold) (id : MutexId) :
    liveHolds (hs ++ hs') id = liveHolds hs id + liveHolds hs' id := by
  simp [liveHolds, List.countP_append]

theorem liveHoldsSingle (h : Hold) (id : MutexId) :
    liveHolds [h] id = if h.live && h.mutex == id then 1 else 0 := by
  simp [liveHolds, List.countP_cons]

theorem settleStepsHolds (held : Array Bool) : ∀ (L : List (Hold × Nat)) (acc : Array Hold × LockTable),
    (L.foldl (settleStep held) acc).1.toList =
      acc.1.toList ++ L.map fun x => if x.1.live && !(held[x.2]?.getD false) then { x.1 with live := false } else x.1
  | [], acc => by simp
  | x :: L, acc => by
    rw [List.foldl_cons, settleStepsHolds held L]
    unfold settleStep
    split <;> simp_all

theorem settleStepsSound (held : Array Bool) : ∀ (L : List (Hold × Nat)) (acc : Array Hold × LockTable),
    acc.2.Sound → (L.foldl (settleStep held) acc).2.Sound
  | [], _, sound => sound
  | x :: L, acc, sound => by
    rw [List.foldl_cons]
    refine settleStepsSound held L _ ?_
    unfold settleStep
    split
    · exact sound.removeRef _
    · exact sound

theorem settleStepsCount (held : Array Bool) (id : MutexId) :
    ∀ (L : List (Hold × Nat)) (acc : Array Hold × LockTable),
      acc.2.refsOf id = liveHolds acc.1.toList id + liveHolds (L.map Prod.fst) id → acc.2.Revived id →
      (L.foldl (settleStep held) acc).2.refsOf id = liveHolds (L.foldl (settleStep held) acc).1.toList id ∧
        (L.foldl (settleStep held) acc).2.Revived id
  | [], acc, counted, revived => ⟨by simpa [liveHolds] using counted, revived⟩
  | x :: L, acc, counted, revived => by
    rw [List.foldl_cons]
    have rest : liveHolds ((x :: L).map Prod.fst) id =
        liveHolds [x.1] id + liveHolds (L.map Prod.fst) id := by
      rw [← liveHoldsAppend]
      rfl
    apply settleStepsCount held id L
    · unfold settleStep
      split
      · -- a live held reference ends: one reference fewer if it was to this lock
        rename_i ends
        have live : x.1.live = true := by simp at ends; exact ends.1
        rw [LockTable.refsOfRemoveRef, Array.toList_push, liveHoldsAppend, liveHoldsSingle]
        rw [rest, liveHoldsSingle] at counted
        by_cases mine : x.1.mutex = id
        · simp only [mine, live, beq_self_eq_true, Bool.and_self, if_true] at counted ⊢
          simp
          omega
        · have other : (x.1.mutex == id) = false := by simpa using mine
          simp only [mine, other, Bool.and_false, Bool.false_eq_true, if_false] at counted ⊢
          simp
          omega
      · rw [Array.toList_push, liveHoldsAppend, counted, rest]
        omega
    · unfold settleStep
      split
      · exact revived.removeRef _
      · exact revived


theorem liveHoldsPos {hs : Array Hold} {id : MutexId} :
    0 < liveHolds hs.toList id ↔ ∃ (i : Nat) (h : Hold), hs[i]? = some h ∧ h.live = true ∧ h.mutex = id := by
  rw [liveHolds, List.countP_pos_iff]
  constructor
  · rintro ⟨h, mem, counts⟩
    obtain ⟨i, found⟩ := List.mem_iff_getElem?.mp mem
    rw [Array.getElem?_toList] at found
    simp only [Bool.and_eq_true, beq_iff_eq] at counts
    exact ⟨i, h, found, counts⟩
  · rintro ⟨i, h, found, live, mine⟩
    refine ⟨h, List.mem_iff_getElem?.mpr ⟨i, by rwa [Array.getElem?_toList]⟩, ?_⟩
    simp [live, mine]

theorem Tracked.seatedIff {m : Machine} {id : MutexId} (tracked : m.Tracked id) (sound : m.locks.Sound) :
    m.locks.Seated id ↔ ∃ (i : Nat) (h : Hold), m.holds[i]? = some h ∧ h.live = true ∧ h.mutex = id := by
  rw [sound.seatedIff, ← liveHoldsPos, ← tracked.counted, LockTable.refsOf]
  constructor
  · rintro ⟨mu, found, live⟩
    obtain ⟨r, reg, occ⟩ := sound.seated id mu found live
    obtain ⟨mu', found', -, -, -, counts⟩ := sound.occupants r reg _ id occ
    rw [found] at found'
    cases found'
    simpa [found] using counts
  · intro counts
    cases found : m.locks.get? id with
    | none => simp [found] at counts
    | some mu =>
      rw [found] at counts
      exact ⟨mu, rfl, tracked.revived mu found (by simpa using counts)⟩
end Counted

section Settle

/-- Context `j` lives. -/
def Living (m : Machine) (j : Nat) : Prop := m.contextLive[j]?.getD false = true

/-- The engine holds value `v`: a root has it (a literal of a unit, or a value, local or result
of a process), or a living context. -/
def Holds (m : Machine) (v : Value) : Prop :=
  v ∈ m.rootValues ∨ ∃ (j : Nat) (c : Context), m.contexts[j]? = some c ∧ m.Living j ∧ v ∈ c.values

/-- Context `d` is kept by a root: a root value is it, the host keeps it, or a process has
entered it. -/
def Rooted (m : Machine) (d : ContextId) : Prop :=
  Value.context d ∈ m.rootValues ∨ d ∈ m.hostContexts ∨ ∃ p ∈ m.procs, d ∈ p.contexts

/-- Something living refers to context `d`: a root, or a living context. -/
def Kept (m : Machine) (d : ContextId) : Prop :=
  m.Rooted d ∨ ∃ (j : Nat) (c : Context), m.contexts[j]? = some c ∧ m.Living j ∧ d ∈ c.refersTo

theorem memSettleRoots (m : Machine) (d : ContextId) : d ∈ m.settleRoots ↔ m.Rooted d := by
  simp only [settleRoots, List.mem_append, memReferredContexts, Array.mem_toList_iff, List.mem_flatMap,
    Rooted, or_assoc]

@[simp] theorem settleRootValues (m : Machine) : m.settle.rootValues = m.rootValues := by
  unfold settle
  split <;> rfl

@[simp] theorem settleContextsSame (m : Machine) : m.settle.contexts = m.contexts := by
  unfold settle
  split <;> rfl

@[simp] theorem settleProcsSame (m : Machine) : m.settle.procs = m.procs := by
  unfold settle
  split <;> rfl

@[simp] theorem settleHostContexts (m : Machine) : m.settle.hostContexts = m.hostContexts := by
  unfold settle
  split <;> rfl

theorem settleRooted (m : Machine) (d : ContextId) : m.settle.Rooted d ↔ m.Rooted d := by
  unfold Rooted
  rw [settleRootValues, settleHostContexts, settleProcsSame]

theorem settledHeldGet (m : Machine) (i : Nat) :
    m.settledHeld[i]?.getD false = true ↔ i < m.holds.size ∧
      ∃ mu, Value.lock ⟨i⟩ mu ∈ m.rootValues ∨ ∃ (j : Nat) (c : Context), m.contexts[j]? = some c ∧
        m.settledAlive[j]?.getD false = true ∧ Value.lock ⟨i⟩ mu ∈ c.values := by
  unfold settledHeld
  rw [markAllGet, memIndices HoldId.index HoldId.mk (fun _ => rfl) (fun _ => rfl), List.mem_append,
    memReferredHolds, List.mem_flatMap]
  refine and_congr_right fun _ => ?_
  constructor
  · rintro (⟨mu, root⟩ | ⟨⟨c, j⟩, mem, inner⟩)
    · exact ⟨mu, .inl root⟩
    · rw [List.mem_zipIdx_iff_getElem?, Array.getElem?_toList] at mem
      dsimp only at inner mem
      split at inner
      · obtain ⟨mu, held⟩ := (memReferredHolds _).mp inner
        exact ⟨mu, .inr ⟨j, c, mem, ‹_›, held⟩⟩
      · cases inner
  · rintro ⟨mu, root | ⟨j, c, found, alive, held⟩⟩
    · exact .inl ⟨mu, root⟩
    · refine .inr ⟨(c, j), ?_, ?_⟩
      · rw [List.mem_zipIdx_iff_getElem?, Array.getElem?_toList]
        exact found
      · dsimp only
        rw [if_pos alive]
        exact (memReferredHolds _).mpr ⟨mu, held⟩


theorem settledFold (m : Machine) :
    (m.holds.zipIdx.foldl (settleStep m.settledHeld) (#[], m.locks)) =
      m.holds.toList.zipIdx.foldl (settleStep m.settledHeld) (#[], m.locks) := by
  rw [← Array.foldl_toList, Array.toList_zipIdx]

theorem settleHoldsGet (m : Machine) (i : Nat) :
    m.settle.holds[i]? = m.holds[i]?.map fun h =>
      if h.live && !(m.settledHeld[i]?.getD false) then { h with live := false } else h := by
  cases live : m.holds.any (·.live)
  · -- nothing is live, so nothing ends
    rw [settleIdle live]
    cases found : m.holds[i]? with
    | none => rfl
    | some h =>
      have dead : h.live = false := by
        obtain ⟨inside, rfl⟩ := Array.getElem?_eq_some_iff.mp found
        simpa using (Array.any_eq_false.mp live) i inside
      simp [dead]
  · rw [settleLive live, settledFold, ← Array.getElem?_toList, settleStepsHolds]
    simp [List.getElem?_zipIdx, Function.comp_def]

theorem settleHolds {m : Machine} (live : m.holds.any (·.live) = true) (v : Value) :
    m.settle.Holds v ↔ v ∈ m.rootValues ∨ ∃ (j : Nat) (c : Context), m.contexts[j]? = some c ∧
      m.settledAlive[j]?.getD false = true ∧ v ∈ c.values := by
  rw [Holds, settleRootValues, settleContextsSame, settleLive live]
  rfl

theorem settleHoldLive (m : Machine) {i : Nat} {h : Hold} (found : m.holds[i]? = some h) :
    ∃ h', m.settle.holds[i]? = some h' ∧ h'.mutex = h.mutex ∧
      (h'.live = true ↔ h.live = true ∧ ∃ mu, m.settle.Holds (.lock ⟨i⟩ mu)) := by
  rw [settleHoldsGet, found, Option.map_some]
  refine ⟨_, rfl, by split <;> rfl, ?_⟩
  cases live : m.holds.any (·.live)
  · -- nothing was live
    have dead : h.live = false := by
      obtain ⟨inside, rfl⟩ := Array.getElem?_eq_some_iff.mp found
      simpa using (Array.any_eq_false.mp live) i inside
    simp [dead]
  · have inside : i < m.holds.size := (Array.getElem?_eq_some_iff.mp found).1
    -- the engine still holds a value with it exactly when settling marked it held
    have held : (∃ mu, m.settle.Holds (.lock ⟨i⟩ mu)) ↔ m.settledHeld[i]?.getD false = true := by
      simp only [settleHolds live]
      rw [m.settledHeldGet i]
      exact ⟨fun e => ⟨inside, e⟩, fun e => e.2⟩
    rw [held]
    cases alive : h.live
    · simp [alive]
    · cases m.settledHeld[i]?.getD false <;> simp [alive]

theorem settleTracked {m : Machine} {id : MutexId} (tracked : m.Tracked id) : m.settle.Tracked id := by
  cases live : m.holds.any (·.live)
  · rw [settleIdle live]
    exact tracked
  · rw [settleLive live, settledFold]
    have start : (#[] : Array Hold).toList = [] := rfl
    obtain ⟨counted, revived⟩ := settleStepsCount m.settledHeld id m.holds.toList.zipIdx (#[], m.locks)
      (by simp [tracked.counted, liveHolds]) tracked.revived
    exact ⟨counted, revived⟩

theorem settleSound {m : Machine} (sound : m.locks.Sound) : m.settle.locks.Sound := by
  cases live : m.holds.any (·.live)
  · rw [settleIdle live]
    exact sound
  · rw [settleLive live, settledFold]
    exact settleStepsSound _ _ _ sound

theorem settleLiving {m : Machine} (sized : m.contextLive.size = m.contexts.size)
    (live : m.holds.any (·.live) = true) (j : Nat) :
    m.settle.Living j ↔ m.Living j ∧ m.settle.Kept ⟨j⟩ := by
  have alive : m.settle.contextLive = m.settledAlive := by rw [settleLive live]
  have fixed := m.settleContextsFixed m.settleRoots (m.contexts.size + 1) m.contextLive (by omega)
    (by
      have few : m.contextLive.toList.count true ≤ m.contextLive.toList.length := List.count_le_length
      rw [Array.length_toList] at few
      omega)
  simp only [Living, Kept, alive, settleRooted, settleContextsSame]
  constructor
  · intro living
    refine ⟨m.settleContextsBelow _ _ _ _ living, ?_⟩
    have again := (m.stillReferredGet _ _ j).mp ((congrArg (·[j]?.getD false) fixed).trans living)
    rcases again.2.2 with root | ⟨k, c, found, alive', refers⟩
    · exact .inl ((memSettleRoots m _).mp root)
    · exact .inr ⟨k, c, found, alive', refers⟩
  · rintro ⟨living, root | ⟨k, c, found, alive', refers⟩⟩
    · have inside : j < m.contexts.size := by
        rw [← sized]
        by_contra outside
        simp [Array.getElem?_eq_none (by omega : m.contextLive.size ≤ j)] at living
      exact m.settleContextsKeeps _ _ _ _ living inside (.inl ((memSettleRoots m _).mpr root))
    · have inside : j < m.contexts.size := by
        rw [← sized]
        by_contra outside
        simp [Array.getElem?_eq_none (by omega : m.contextLive.size ≤ j)] at living
      exact m.settleContextsKeeps _ _ _ _ living inside (.inr ⟨k, c, found, alive', refers⟩)
end Settle

end Machine

end ScriptEngine
