import ScriptEngine.Proofs.ListOperations
import ScriptEngine.Proofs.Settling
import ScriptEngine.Proofs.LockOperations
import ScriptEngine.Proofs.FrameIsolation
/-!
Reaping the finished processes. Removing them keeps the other processes in their order and
answers how many went. For each removed process that acts for an object it reports, in list
order, that object: the one of its innermost context bound to one, or else the one it acted
for when it last finished. Finishing records that object and empties the contexts, and
finishing again keeps it, so a process left as it finished is reported with the object it
had then. Nothing stops a context being pushed onto a finished process, though, and such a
context comes first. Reaping then takes every lock of the registry from the removed
processes: disowning, giving references back and settling only ever release locks
(`LockTable.Releases`), so the registry lists none as theirs.
-/
namespace ScriptEngine

namespace LockTable

variable {t t' t'' : LockTable}

/-- The owner a table shows for a lock: the lock's owner while it is live. -/
def ownerOf (t : LockTable) (id : MutexId) : Option Nat := ((t.get? id).map (·.currentOwner)).join

theorem memEnumOwned {pid : Nat} {id : MutexId} :
    id ∈ t.enum (some pid) ↔
      ∃ r, t.registry = some r ∧ some id ∈ r.occupant.toList ∧ t.ownerOf id = some pid := by
  unfold LockTable.enum ownerOf
  cases t.registry with
  | none => simp
  | some r => simp

/-- `t'` keeps only what `t` had: every lock seated in `t'` is seated in `t`, and every lock
owned in `t'` has that owner in `t`. -/
structure Releases (t t' : LockTable) : Prop where
  seats : ∀ r', t'.registry = some r' →
    ∃ r, t.registry = some r ∧ ∀ id, some id ∈ r'.occupant.toList → some id ∈ r.occupant.toList
  owners : ∀ id pid, t'.ownerOf id = some pid → t.ownerOf id = some pid

theorem Releases.refl (t : LockTable) : Releases t t :=
  ⟨fun r reg => ⟨r, reg, fun _ seated => seated⟩, fun _ _ owned => owned⟩

theorem Releases.trans (first : Releases t t') (second : Releases t' t'') : Releases t t'' := by
  refine ⟨fun r'' reg'' => ?_, fun id pid owned => first.owners id pid (second.owners id pid owned)⟩
  obtain ⟨r', reg', seated'⟩ := second.seats r'' reg''
  obtain ⟨r, reg, seated⟩ := first.seats r' reg'
  exact ⟨r, reg, fun id seat => seated id (seated' id seat)⟩

theorem Releases.enum (rel : Releases t t') {pid : Nat} {id : MutexId}
    (listed : id ∈ t'.enum (some pid)) : id ∈ t.enum (some pid) := by
  obtain ⟨r', reg', seat, owned⟩ := memEnumOwned.mp listed
  obtain ⟨r, reg, seated⟩ := rel.seats r' reg'
  exact memEnumOwned.mpr ⟨r, reg, seated id seat, rel.owners id pid owned⟩

theorem Releases.enumNil (rel : Releases t t') {pid : Nat} (none : t.enum (some pid) = []) :
    t'.enum (some pid) = [] :=
  List.eq_nil_iff_forall_not_mem.mpr fun _ listed => by
    simpa [none] using rel.enum listed

theorem ownerOfDisown (t : LockTable) (pid : Nat) (id : MutexId) :
    (t.disown pid).ownerOf id = if id ∈ t.enum (some pid) then none else t.ownerOf id := by
  unfold ownerOf disown
  rw [getFoldModify (fun m : Mutex => { m with owner := none }) (fun _ => rfl)]
  split
  · cases t.get? id <;> simp [Mutex.currentOwner]
  · rfl

theorem registryDisown (t : LockTable) (pid : Nat) : (t.disown pid).registry = t.registry :=
  registryFoldModify _ _ t

theorem releasesDisown (t : LockTable) (pid : Nat) : Releases t (t.disown pid) := by
  refine ⟨fun r reg => ⟨r, (registryDisown t pid).symm.trans reg, fun _ seated => seated⟩,
    fun id q owned => ?_⟩
  rw [ownerOfDisown] at owned
  split at owned
  · cases owned
  · exact owned

theorem enumDisown (t : LockTable) (pid : Nat) : (t.disown pid).enum (some pid) = [] := by
  refine List.eq_nil_iff_forall_not_mem.mpr fun id listed => ?_
  obtain ⟨r, reg, seat, owned⟩ := memEnumOwned.mp listed
  rw [ownerOfDisown] at owned
  split at owned
  · cases owned
  · rename_i unlisted
    exact unlisted (memEnumOwned.mpr ⟨r, (registryDisown t pid) ▸ reg, seat, owned⟩)

theorem unrefOwner {mu : Mutex} {pid : Nat} (owned : mu.unref.currentOwner = some pid) :
    mu.currentOwner = some pid := by
  unfold Mutex.unref at owned
  split_ifs at owned <;> simp_all [Mutex.currentOwner]

theorem releasesRemoveRef (t : LockTable) (id : MutexId) : Releases t (t.removeRef id) := by
  refine ⟨fun r' reg' => ?_, fun id' pid owned => ?_⟩
  · rcases removeRefRegistry t id with same | ⟨r, s, reg, freed⟩
    · exact ⟨r', same ▸ reg', fun _ seated => seated⟩
    · rw [freed, Option.some.injEq] at reg'
      subst reg'
      refine ⟨r, reg, fun id' seat => ?_⟩
      rw [Array.set!_eq_setIfInBounds, Array.toList_setIfInBounds] at seat
      rcases List.mem_or_eq_of_mem_set seat with kept | freed
      · exact kept
      · cases freed
  · unfold ownerOf at owned ⊢
    rw [getRemoveRef] at owned
    split at owned
    · cases found : t.get? id' with
      | none => simp [found] at owned
      | some mu =>
        simp only [found, Option.map_some, Option.join_some] at owned ⊢
        exact unrefOwner owned
    · exact owned

theorem disownEvery (pids : List Nat) (t : LockTable) :
    Releases t (pids.foldl disown t) ∧ ∀ pid ∈ pids, (pids.foldl disown t).enum (some pid) = [] := by
  induction pids generalizing t with
  | nil => exact ⟨.refl t, fun _ none => absurd none List.not_mem_nil⟩
  | cons q pids ih =>
    obtain ⟨rel, disowned⟩ := ih (t.disown q)
    refine ⟨(releasesDisown t q).trans rel, fun pid mem => ?_⟩
    rcases List.mem_cons.mp mem with rfl | later
    · exact rel.enumNil (enumDisown t pid)
    · exact disowned pid later

theorem Sound.disownAll (pids : List Nat) {t : LockTable} (sound : t.Sound) :
    (pids.foldl LockTable.disown t).Sound := by
  induction pids generalizing t with
  | nil => exact sound
  | cons q pids ih => exact ih (sound.disown q)

end LockTable

namespace Machine

open LockTable

theorem settleStepsReleases (held : Array Bool) :
    ∀ (L : List (Hold × Nat)) (acc : Array Hold × LockTable),
      acc.2.Releases (L.foldl (settleStep held) acc).2
  | [], acc => .refl _
  | x :: L, acc => by
    rw [List.foldl_cons]
    refine Releases.trans ?_ (settleStepsReleases held L _)
    unfold settleStep
    split
    · exact releasesRemoveRef _ _
    · exact .refl _

theorem releasesSettle (m : Machine) : m.locks.Releases m.settle.locks := by
  cases live : m.holds.any (·.live)
  · rw [settleIdle live]
    exact .refl _
  · rw [settleLive live, settledFold]
    exact settleStepsReleases m.settledHeld m.holds.toList.zipIdx (#[], m.locks)

theorem objectOfSameContexts {m m' : Machine} (same : m'.contexts = m.contexts) :
    ∀ fuel id, m'.objectOf fuel id = m.objectOf fuel id
  | 0, _ => rfl
  | fuel + 1, id => by
    have inner : m'.objectOf fuel = m.objectOf fuel := funext (objectOfSameContexts same fuel)
    simp only [objectOf, context?, same, inner]

theorem invokingObjectSameContexts {m m' : Machine} (same : m'.contexts = m.contexts) :
    m'.invokingObject = m.invokingObject := by
  have objects : m'.contextObject = m.contextObject := funext fun id => by
    simp only [contextObject, contextFuel, same, objectOfSameContexts same]
  funext p
  simp only [invokingObject, objects]

theorem invokingObjectBare (m : Machine) {p : Process} (bare : p.contexts = #[]) :
    m.invokingObject p = p.finishedObject := by
  simp [invokingObject, bare]

theorem foldlReports (xs : List Process) {f : Machine → Process → Machine}
    (reports : ∀ m p, f m p =
      { m with events := m.events ++ ((m.invokingObject p).toList.map .objectChanged).toArray })
    (m : Machine) :
    xs.foldl f m =
      { m with events := m.events ++ ((xs.filterMap m.invokingObject).map .objectChanged).toArray } := by
  induction xs generalizing m with
  | nil => simp
  | cons x xs ih =>
    rw [List.foldl_cons, ih, reports]
    have same : ({ m with events := m.events ++ ((m.invokingObject x).toList.map .objectChanged).toArray } :
        Machine).invokingObject = m.invokingObject := invokingObjectSameContexts rfl
    rw [same]
    cases found : m.invokingObject x <;> simp [found]

theorem disownEach (xs : List Process) (m : Machine) :
    xs.foldl (fun m p => { m with locks := m.locks.disown p.id }) m =
      { m with locks := (xs.map (·.id)).foldl LockTable.disown m.locks } := by
  induction xs generalizing m with
  | nil => rfl
  | cons x xs ih => rw [List.foldl_cons, ih]; rfl

/-- The finished processes, in list order: those reaping removes. -/
def finishedProcs (m : Machine) : List Process := m.procs.toList.filter (·.status.isTerminal)

theorem removeTerminatedStages (m : Machine) :
    m.removeTerminated = (({ m with
        events := m.events ++ ((m.finishedProcs.filterMap m.invokingObject).map .objectChanged).toArray
        procs := m.procs.filter fun p => !p.status.isTerminal
        locks := (m.finishedProcs.map (·.id)).foldl LockTable.disown m.locks } : Machine).settle,
      m.finishedProcs.length) := by
  unfold Machine.removeTerminated
  dsimp only
  rw [← Array.foldl_toList, ← Array.foldl_toList, Array.toList_filter, disownEach, foldlReports _ ?_]
  · congr 1
    rw [finishedProcs, ← Array.toList_filter, Array.length_toList]
  · intro m p
    split <;> simp [emit, *]

theorem settleEvents (m : Machine) : m.settle.events = m.events := congrArg Prod.fst (ledgerSettle m)

theorem reapEvents (m : Machine) : m.removeTerminated.1.events.toList =
    m.events.toList ++ (m.finishedProcs.filterMap m.invokingObject).map .objectChanged := by
  rw [removeTerminatedStages]
  dsimp only
  rw [settleEvents]
  simp

theorem reapDisowns (m : Machine) :
    ∀ p ∈ m.finishedProcs, m.removeTerminated.1.locks.enum (some p.id) = [] := by
  intro p gone
  rw [removeTerminatedStages]
  exact (releasesSettle _).enumNil ((disownEvery _ m.locks).2 p.id (List.mem_map_of_mem gone))

theorem reapSound {m : Machine} (sound : m.locks.Sound) : m.removeTerminated.1.locks.Sound := by
  rw [removeTerminatedStages]
  exact settleSound (Sound.disownAll _ sound)

theorem finishKeepsObject {m : Machine} {pid : Nat} {p : Process} (found : m.proc? pid = some p)
    (status status' : Status) :
    ∃ q q', (m.finish pid status).proc? pid = some q ∧ q.status = status ∧ q.contexts = #[] ∧
      q.finishedObject = m.invokingObject p ∧
      ((m.finish pid status).finish pid status').proc? pid = some q' ∧
      q'.finishedObject = m.invokingObject p := by
  have first := finishFound found status
  refine ⟨_, _, first, rfl, rfl, rfl, finishFound first status', ?_⟩
  -- the second finish finds no contexts, so it records the object the first one recorded
  dsimp only
  rw [invokingObjectBare]
  rfl

/-- Reaping removes exactly the finished processes and keeps the others in their order, and
answers how many it removed. It reports, in list order, one object change for each removed
process that acts for an object, with that object: the one of its innermost context bound
to one, or else the one it acted for when it last finished. Finishing records that object
and empties the contexts, and finishing again keeps it, so a removed process whose contexts
are as finishing left them is reported with the object it acted for when it finished.
Afterwards the registry lists no lock as owned by a removed process, and when its
bookkeeping is sound no live lock at all is. -/
theorem reapReportsActingObjects (m : Machine) :
    m.removeTerminated.1.procs.toList = m.procs.toList.filter (fun p => !p.status.isTerminal) ∧
      m.removeTerminated.2 = m.finishedProcs.length ∧
      m.removeTerminated.1.events.toList =
        m.events.toList ++ (m.finishedProcs.filterMap m.invokingObject).map .objectChanged ∧
      (∀ p ∈ m.finishedProcs, p.contexts = #[] → m.invokingObject p = p.finishedObject) ∧
      (∀ pid p status status', m.proc? pid = some p →
        ∃ q q', (m.finish pid status).proc? pid = some q ∧ q.status = status ∧ q.contexts = #[] ∧
          q.finishedObject = m.invokingObject p ∧
          ((m.finish pid status).finish pid status').proc? pid = some q' ∧
          q'.finishedObject = m.invokingObject p) ∧
      (∀ p ∈ m.finishedProcs, m.removeTerminated.1.locks.enum (some p.id) = []) ∧
      (m.locks.Sound → ∀ p ∈ m.finishedProcs, ∀ id mu,
        m.removeTerminated.1.locks.get? id = some mu → mu.live = true → mu.owner ≠ some p.id) := by
  refine ⟨?_, congrArg Prod.snd (removeTerminatedStages m), reapEvents m,
    fun p _ bare => invokingObjectBare m bare,
    fun _ _ status status' found => finishKeepsObject found status status', reapDisowns m, ?_⟩
  · rw [(removeTerminatedKeeps m).1, Array.toList_filter]
  · intro sound p gone id mu found alive owned
    have listed : id ∈ m.removeTerminated.1.locks.enum (some p.id) :=
      (memEnumIff (reapSound sound) _ id).mpr ⟨mu, found, alive, .inr owned⟩
    rw [reapDisowns m p gone] at listed
    exact List.not_mem_nil listed

/-- A process acting for object 7 through its context, terminated and reaped: it finished
with no context left and object 7 recorded, it is counted and reported for object 7, and no
live lock is left to it. -/
theorem terminatedActingProcessReaped :
    let start := (({ locks := LockTable.fresh } : Machine).create "p").1.addContext
      (.bindings { name := "g", object := some 7 })
    let m := ((start.1.modifyProc 1 (·.pushContext start.2)).terminate 1).1
    m.locks.Sound ∧
      (∀ p ∈ m.finishedProcs, p.id = 1 ∧ p.contexts = #[] ∧ p.finishedObject = some 7) ∧
      m.removeTerminated.2 = 1 ∧
      m.removeTerminated.1.events.toList = m.events.toList ++ [.objectChanged 7] ∧
      ∀ id mu, m.removeTerminated.1.locks.get? id = some mu → mu.live = true →
        mu.owner ≠ some 1 := by
  intro start m
  obtain ⟨-, count, events, bare, -, -, owners⟩ := reapReportsActingObjects m
  have sound : m.locks.Sound := by
    obtain ⟨registry, mutexes⟩ : m.locks.registry = some {} ∧ m.locks.mutexes = #[] := by
      decide +kernel
    have locks : m.locks = LockTable.fresh := by
      rw [LockTable.fresh, ← registry, ← mutexes]
    exact locks ▸ freshSound
  have recorded :
      ∀ p ∈ m.finishedProcs, p.id = 1 ∧ p.contexts = #[] ∧ p.finishedObject = some 7 := by
    decide +kernel
  have one : m.finishedProcs.length = 1 := by decide +kernel
  have reported :
      m.finishedProcs.filterMap m.invokingObject = m.finishedProcs.filterMap (·.finishedObject) :=
    List.filterMap_congr fun p gone => bare p gone (recorded p gone).2.1
  have seven : m.finishedProcs.filterMap (·.finishedObject) = [7] := by decide +kernel
  refine ⟨sound, recorded, count.trans one, ?_, fun id mu found alive => ?_⟩
  · rw [events, reported, seven]
    rfl
  · obtain ⟨p, gone⟩ : ∃ p, p ∈ m.finishedProcs := List.exists_mem_of_length_pos (by omega)
    have owner := owners sound p gone id mu found alive
    rwa [(recorded p gone).1] at owner

/-- A process that finished acting for no object and was then given a context bound to
object 7 is reported for object 7 when it is removed. -/
theorem lateContextReported :
    let m := ((({} : Machine).create "p").1.terminate 1).1
    let late := m.addContext (.bindings { name := "g", object := some 7 })
    let m' := late.1.modifyProc 1 (·.pushContext late.2)
    m.finishedProcs.map (·.finishedObject) = [none] ∧ m'.finishedProcs.map (·.id) = [1] ∧
      m'.removeTerminated.1.events.toList = [.objectChanged 7] := by
  decide +kernel

end Machine

end ScriptEngine
