import ScriptEngine.Proofs.LiveSteps
import ScriptEngine.Proofs.PriorityOrder
/-!
Locks live exactly as long as their values. A Lock instruction makes a lock with one
reference and a held reference to it, and pushes the lock value; the engine settles after
every instruction, and settling gives the reference back once nothing living holds the value.
Along every run of a process, every termination and every reaping (`Machine.Advance`), the
engine keeps its lifetimes, keeps each tracked lock tracked and stops settled (`Machine.Ends`).
So a lock made along the way is in its registry slot exactly while a value the engine holds
is that lock (`Machine.lockSeatedWhileHeld`).
-/
namespace ScriptEngine

namespace Machine

open Process

variable {m m' m'' : Machine} {pid : Nat} {id : MutexId}

/-! Changes that leave the locks and the held references alone. -/

theorem Beside.refl (m : Machine) : Beside m m := ⟨sameLiterals rfl, rfl, rfl, rfl, rfl, rfl⟩

theorem Beside.trans (first : Beside m m') (second : Beside m' m'') : Beside m m'' := by
  refine ⟨fun c mem => ?_, second.contexts.trans first.contexts, second.contextLive.trans first.contextLive,
    second.hostContexts.trans first.hostContexts, second.holds.trans first.holds, second.locks.trans first.locks⟩
  obtain ⟨c₁, mem₁, same₁⟩ := second.literals c mem
  obtain ⟨c₀, mem₀, same₀⟩ := first.literals c₁ mem₁
  exact ⟨c₀, mem₀, same₁.trans same₀⟩

theorem besideFinish (m : Machine) (pid : Nat) (status : Status) : Beside m (m.finish pid status) := by
  unfold Machine.finish
  split
  · exact .refl m
  · exact besideModifyProc m _ _

theorem besideFailWith (m : Machine) (pid : Nat) (message : String) : Beside m (m.failWith pid message) := by
  unfold Machine.failWith
  split
  · exact .refl m
  · exact (besideModifyProc m _ _).trans (besideFinish _ pid .failed)

theorem besideRaise (m : Machine) (pid : Nat) (fault : Fault) : Beside m (m.raise pid fault).1 := by
  unfold Machine.raise
  split
  · exact .refl m
  · split
    · exact besideModifyProc m _ _
    · exact (besideModifyProc m _ _).trans (besideFailWith _ pid _)

theorem Beside.raiseTo {fault : Fault} {caught : Bool} (raised : m.raise pid fault = (m', caught)) :
    Beside m m' := by
  have := besideRaise m pid fault
  rwa [raised] at this

theorem besideLeaveFrame (m : Machine) (pid : Nat) (value : Option Value) :
    Beside m (m.leaveFrame pid value) := by
  unfold Machine.leaveFrame
  split
  · split
    · exact besideModifyProc m _ _
    · exact .refl m
  · exact .refl m

/-! Tracked locks. -/

/-- Every lock tracked in `m` is tracked in `m'`. -/
def Tracks (m m' : Machine) : Prop := ∀ id, m.Tracked id → m'.Tracked id

theorem Tracks.refl (m : Machine) : Tracks m m := fun _ tracked => tracked

theorem Tracks.trans (first : Tracks m m') (second : Tracks m' m'') : Tracks m m'' :=
  fun id tracked => second id (first id tracked)

theorem Beside.tracks (beside : Beside m m') : Tracks m m' := beside.grows.tracked

theorem tracksSettle (m : Machine) : Tracks m m.settle := fun _ tracked => settleTracked tracked

theorem Tracked.disown (tracked : m.Tracked id) (pid : Nat) :
    ({ m with locks := m.locks.disown pid } : Machine).Tracked id := by
  obtain ⟨counted, revived⟩ := tracked
  have got : (m.locks.disown pid).get? id = if id ∈ m.locks.enum (some pid) then
      (m.locks.get? id).map fun mu => { mu with owner := none } else m.locks.get? id :=
    LockTable.getFoldModify (fun mu : Mutex => { mu with owner := none }) (fun _ => rfl) _ id _
  refine ⟨?_, fun mu found counts => ?_⟩
  · show (m.locks.disown pid).refsOf id = _
    rw [LockTable.refsOf, got, ← counted, LockTable.refsOf]
    split <;> cases m.locks.get? id <;> rfl
  · rw [got] at found
    split at found
    · obtain ⟨mu₀, found₀, rfl⟩ := Option.map_eq_some_iff.mp found
      exact revived mu₀ found₀ counts
    · exact revived mu found counts

theorem trackedNew (bounded : ∀ h ∈ m.holds, h.live = true → h.mutex.index < m.locks.mutexes.size)
    (made : m.locks.mutexes.size ≤ id.index) : m.Tracked id := by
  have absent : m.locks.get? id = none := Array.getElem?_eq_none made
  refine ⟨?_, fun mu found => by rw [absent] at found; cases found⟩
  rw [LockTable.refsOf, absent, Option.map_none, Option.getD_none, liveHolds, eq_comm, List.countP_eq_zero]
  intro h mem counts
  simp only [Bool.and_eq_true, beq_iff_eq] at counts
  have below := bounded h (Array.mem_toList_iff.mp mem) counts.1
  rw [counts.2] at below
  omega

/-! Where a run may stop. -/

/-- `M` is where a run from `m` may stop: it keeps the lifetimes and the tracked locks of `m`,
and is settled. -/
structure Ends (m M : Machine) : Prop where
  life : M.Lifetime
  settled : M.Settled
  tracks : Tracks m M

theorem Ends.refl (life : m.Lifetime) (settled : m.Settled) : Ends m m := ⟨life, settled, .refl m⟩

theorem Ends.trans (first : Ends m m') (second : Ends m' m'') : Ends m m'' :=
  ⟨second.life, second.settled, first.tracks.trans second.tracks⟩

theorem endsSettle (life : m'.Lifetime) (tracks : Tracks m m') : Ends m m'.settle :=
  ⟨life.settle, settleSettled m', tracks.trans (tracksSettle m')⟩

theorem Settled.setFound (settled : m.Settled) {p q : Process} (found : m.proc? pid = some p)
    (same : q.id = p.id) (held : ∀ v ∈ p.held, v ∈ q.held) : (m.setProc q).Settled := by
  rw [setProcAt found same]
  refine settled.modifyProc _ fun p' found' v mem => ?_
  rw [found, Option.some.injEq] at found'
  exact held v (found' ▸ mem)

theorem Ends.restate (life : m.Lifetime) (settled : m.Settled) {p q : Process} (found : m.proc? pid = some p)
    (same : q.id = p.id) (values : q.values = p.values) (frames : q.frames = p.frames)
    (result : q.result = p.result) (contexts : q.contexts = p.contexts) : Ends m (m.setProc q) := by
  have draws : p.Draws q fun _ => False := drawsSame values frames result contexts
  refine ⟨life.setFound found draws fun _ no => no.elim, settled.setFound found same fun v mem => ?_,
    (besideModifyProc m _ _).tracks⟩
  rw [memHeld, values, frames, result]
  exact memHeld.mp mem

theorem Lifetime.moved {r : Except Fault Outcome} {fuel : Nat} (life : m.Lifetime)
    (step : ({ m.observe pid with budget := fuel } : Machine).step pid = (m', r)) :
    m'.Lifetime ∧ Tracks m m' ∧ ∀ v, r = .ok (.ret (some v)) → m'.ValueLive v := by
  have stepped := (life.observe pid fuel).step pid
  rw [step] at stepped
  obtain ⟨life', grows, ret⟩ := stepped
  exact ⟨life', (besideObserve m pid fuel).tracks.trans grows.tracked, ret⟩

theorem runLoopEnds (pid : Nat) (temporary : Bool) (fuel : Nat) (m : Machine) :
    m.Lifetime → m.Settled → Ends m (runLoop pid temporary fuel m) := by
  -- one case per way an instruction ends; each settles before the run goes on or stops
  fun_induction Machine.runLoop pid temporary fuel m with
  | case1 => exact Ends.refl
  | case2 fuel m p found empty =>
    exact fun life _ => endsSettle (life.finish pid .ended) (besideFinish m pid .ended).tracks
  | case3 m p found framed =>
    have beside : Beside m { m with budget := 0, exhausted := true } := ⟨sameLiterals rfl, rfl, rfl, rfl, rfl, rfl⟩
    exact fun life settled => ⟨life.beside beside fun _ mem => .inl mem, settled, beside.tracks⟩
  | case4 m p found framed fuel m₁ m₂ step ih =>
    intro life _
    obtain ⟨life₂, tracks₂, -⟩ := life.moved step
    have settled := endsSettle life₂ tracks₂
    exact settled.trans (ih settled.life settled.settled)
  | case5 m p found framed fuel m₁ m₂ v step ih =>
    intro life _
    obtain ⟨life₂, tracks₂, ret⟩ := life.moved step
    have left := life₂.leaveFrame pid fun w (same : v = some w) => ret w (by rw [same])
    have settled := endsSettle left (tracks₂.trans (besideLeaveFrame m₂ pid v).tracks)
    exact settled.trans (ih settled.life settled.settled)
  | case6 m p found framed fuel m₁ m₂ wait temp m₃ caught step ih
  | case10 m p found framed fuel m₁ m₂ e m₃ caught step ih =>
    -- a fault a handler takes, the run going on
    intro life _
    obtain ⟨life₂, tracks₂, -⟩ := life.moved step
    have settled := endsSettle (life₂.raiseTo caught) (tracks₂.trans (Beside.raiseTo caught).tracks)
    exact settled.trans (ih settled.life settled.settled)
  | case7 m p found framed fuel m₁ m₂ wait temp m₃ uncaught step
  | case11 m p found framed fuel m₁ m₂ e m₃ uncaught step =>
    intro life _
    obtain ⟨life₂, tracks₂, -⟩ := life.moved step
    exact endsSettle (life₂.raiseTo uncaught) (tracks₂.trans (Beside.raiseTo uncaught).tracks)
  | case8 m p found framed fuel m₁ m₂ wait temp step =>
    intro life _
    obtain ⟨life₂, tracks₂, -⟩ := life.moved step
    exact endsSettle (life₂.setStatus pid _) (tracks₂.trans (besideModifyProc m₂ pid _).tracks)
  | case9 m p found framed fuel m₁ m₂ step =>
    intro life _
    obtain ⟨life₂, tracks₂, -⟩ := life.moved step
    exact endsSettle (life₂.finish pid .terminated) (tracks₂.trans (besideFinish m₂ pid .terminated).tracks)

theorem executeEnds (life : m.Lifetime) (settled : m.Settled) (pid : Nat) (temporary : Bool) :
    Ends m (m.execute pid temporary) := by
  unfold Machine.execute
  split
  · exact .refl life settled
  · rename_i p found
    split
    · exact .refl life settled
    · dsimp only
      -- the process starts at its next generation, running, holding what it held
      have started : ∀ pending : Option Fault,
          Ends m (m.setProc { p with generation := p.generation + 1, status := .running, pending := pending }) :=
        fun _ => .restate life settled found rfl rfl rfl rfl rfl
      split
      · split
        · rename_i m₁ caught
          have raised := (started none).trans
            (endsSettle ((started none).life.raiseTo caught) (Beside.raiseTo caught).tracks)
          exact raised.trans (runLoopEnds pid temporary _ _ raised.life raised.settled)
        · rename_i m₁ uncaught
          exact (started none).trans
            (endsSettle ((started none).life.raiseTo uncaught) (Beside.raiseTo uncaught).tracks)
      · have begun := started p.pending
        exact begun.trans (runLoopEnds pid temporary _ _ begun.life begun.settled)

theorem endsStartGroup (life : m.Lifetime) (settled : m.Settled) (distinct : m.Distinct) (g : Nat) :
    Ends m (m.startGroup g) := by
  unfold Machine.startGroup
  split
  · exact .refl life settled
  · split
    · rename_i p first
      have found := procOfMem distinct (by simpa using Array.mem_of_find?_eq_some first)
      exact .restate life settled found rfl rfl rfl rfl rfl
    · have beside : Beside m (m.emit (.groupFinished g)) := ⟨sameLiterals rfl, rfl, rfl, rfl, rfl, rfl⟩
      exact ⟨life.beside beside fun _ mem => .inl mem, settled, beside.tracks⟩

theorem Distinct.terminate (distinct : m.Distinct) (pid : Nat) : (m.terminate pid).1.Distinct := by
  unfold Machine.terminate
  split
  · exact distinct
  · have ended : (m.finish pid .terminated).settle.Distinct :=
      distinctAside (show Aside pid _ _ from asideSettle _) (distinctAside (asideFinish .terminated) distinct)
    dsimp only
    split
    · exact (sameStartGroup ended _).distinct ended
    · exact ended

theorem terminateEnds (life : m.Lifetime) (settled : m.Settled) (distinct : m.Distinct) (pid : Nat) :
    Ends m (m.terminate pid).1 := by
  unfold Machine.terminate
  split
  · exact .refl life settled
  · have ended := endsSettle (life.finish pid .terminated) (besideFinish m pid .terminated).tracks
    have still : (m.finish pid .terminated).settle.Distinct :=
      distinctAside (show Aside pid _ _ from asideSettle _) (distinctAside (asideFinish .terminated) distinct)
    dsimp only
    split
    · exact ended.trans (endsStartGroup ended.life ended.settled still _)
    · exact ended

theorem Distinct.reap (distinct : m.Distinct) : m.removeTerminated.1.Distinct := by
  unfold Distinct
  rw [(removeTerminatedKeeps m).1, Array.toList_filter]
  exact (List.filter_sublist.map _).nodup distinct

theorem foldlBeside (xs : Array Process) (f : Machine → Process → Machine)
    (beside : ∀ m x, Beside m (f m x) ∧ (f m x).procs = m.procs) (m : Machine) :
    Beside m (xs.foldl f m) ∧ (xs.foldl f m).procs = m.procs := by
  refine Array.foldl_induction (fun _ (m' : Machine) => Beside m m' ∧ m'.procs = m.procs) ⟨.refl m, rfl⟩
    fun i m' kept => ?_
  obtain ⟨next, procs⟩ := beside m' xs[i]
  exact ⟨kept.1.trans next, procs.trans kept.2⟩

theorem disownAll (xs : Array Process) (life : m.Lifetime) :
    (xs.foldl (fun m p => { m with locks := m.locks.disown p.id }) m).Lifetime ∧
      Tracks m (xs.foldl (fun m p => { m with locks := m.locks.disown p.id }) m) := by
  refine Array.foldl_induction (fun _ (m' : Machine) => m'.Lifetime ∧ Tracks m m') ⟨life, .refl m⟩
    fun _ m' ⟨life', tracks⟩ => ?_
  exact ⟨⟨life'.held, life'.kept, life'.sized, life'.locks.disown _⟩, tracks.trans fun _ tracked => tracked.disown _⟩

theorem reapEnds (life : m.Lifetime) : Ends m m.removeTerminated.1 := by
  unfold Machine.removeTerminated
  dsimp only
  generalize reported : Array.foldl _ m _ = m₁
  obtain ⟨beside₁, procs₁⟩ : Beside m m₁ ∧ m₁.procs = m.procs := reported ▸ foldlBeside _ _ (fun m x => by
    split <;> exact ⟨⟨sameLiterals rfl, rfl, rfl, rfl, rfl, rfl⟩, rfl⟩) m
  have beside₂ : Beside m₁ { m₁ with procs := m₁.procs.filter fun p => !p.status.isTerminal } :=
    ⟨sameLiterals rfl, rfl, rfl, rfl, rfl, rfl⟩
  have life₂ := (life.beside beside₁ fun _ mem => .inl (procs₁ ▸ mem)).beside beside₂
    fun _ mem => .inl (Array.mem_of_mem_filter mem)
  obtain ⟨life₃, tracks₃⟩ := disownAll (m.procs.filter (·.status.isTerminal)) life₂
  exact endsSettle life₃ ((beside₁.trans beside₂).tracks.trans tracks₃)

/-! The engine's turns. -/

/-- One turn of the engine: a process runs, a process is terminated, or the terminated
processes are reaped. -/
inductive Advance : Machine → Machine → Prop
  | run (m : Machine) (pid : Nat) (temporary : Bool) : Advance m (m.execute pid temporary)
  | terminate (m : Machine) (pid : Nat) : Advance m (m.terminate pid).1
  | reap (m : Machine) : Advance m m.removeTerminated.1

theorem Advance.ends (turn : Advance m m') (life : m.Lifetime) (settled : m.Settled) (distinct : m.Distinct) :
    Ends m m' ∧ m'.Distinct := by
  cases turn with
  | run pid temporary => exact ⟨executeEnds life settled pid temporary, distinctAside (asideExecute m pid temporary) distinct⟩
  | terminate pid => exact ⟨terminateEnds life settled distinct pid, distinct.terminate pid⟩
  | reap => exact ⟨reapEnds life, distinct.reap⟩

theorem advancesEnd {M : Machine} (turns : Relation.ReflTransGen Advance m M) (life : m.Lifetime)
    (settled : m.Settled) (distinct : m.Distinct) : Ends m M ∧ M.Distinct := by
  induction turns with
  | refl => exact ⟨.refl life settled, distinct⟩
  | tail _ turn ih =>
    obtain ⟨ends, distinct'⟩ := ih
    obtain ⟨ends', distinct''⟩ := turn.ends ends.life ends.settled distinct'
    exact ⟨ends.trans ends', distinct''⟩

/-- Locks live exactly as long as their values: along every run, termination and reaping
from a living, settled state, a lock made along the way is in its registry slot exactly while
the engine holds a value that is it (in a unit's literals, a process's stack, locals or result,
or a living context). A run the allowance stops, after any of its instructions, is such a turn
too. -/
theorem lockSeatedWhileHeld {M : Machine} (life : m.Lifetime) (settled : m.Settled) (distinct : m.Distinct)
    (bounded : ∀ h ∈ m.holds, h.live = true → h.mutex.index < m.locks.mutexes.size)
    (turns : Relation.ReflTransGen Advance m M) (made : m.locks.mutexes.size ≤ id.index) :
    M.locks.Seated id ↔ ∃ h, M.Holds (.lock h id) := by
  obtain ⟨⟨life', settled', tracks⟩, -⟩ := advancesEnd turns life settled distinct
  rw [(tracks id (trackedNew bounded made)).seatedIff life'.locks]
  constructor
  · rintro ⟨i, h, found, live, mine⟩
    -- a settled state holds a value of every live held reference, and that value is the lock
    obtain ⟨mu, holds⟩ := settled' i h found live
    obtain ⟨h', found', -, same⟩ := life'.held _ holds
    rw [found, Option.some.injEq] at found'
    subst found'
    rw [← same, mine] at holds
    exact ⟨⟨i⟩, holds⟩
  · rintro ⟨⟨i⟩, holds⟩
    obtain ⟨h, found, live, mine⟩ := life'.held _ holds
    exact ⟨i, h, found, live, mine⟩

/-- A process that makes a lock and returns without keeping it: the run makes the lock, and
it is in its slot exactly while the engine holds it. -/
theorem lockedRunSeatedWhileHeld :
    let unit : Code := { instrs := #[.pushLiteral 0, .pushLiteral 1, .control .lock, .ret 0], literals := #[.str "L", .str ""] }
    let m := ((Exec.pushFrame 1 ⟨0⟩ false).run
      (({ codes := #[unit], locks := LockTable.fresh } : Machine).create "main").1).2
    (m.execute 1 false).locks.mutexes.size = 1 ∧
      ((m.execute 1 false).locks.Seated ⟨0⟩ ↔ ∃ h, (m.execute 1 false).Holds (.lock h ⟨0⟩)) := by
  intro unit m
  have roots : m.rootValues = [.str "L", .str ""] := by decide +kernel
  have contexts : m.contexts = #[] := by decide +kernel
  have holds : m.holds = #[] := by decide +kernel
  have locks : m.locks = LockTable.fresh := by
    have mutexes : m.locks.mutexes = #[] := by decide +kernel
    have registry : m.locks.registry = some {} := by decide +kernel
    rw [LockTable.fresh, ← mutexes, ← registry]
  have bare : m.procs.all (·.contexts.isEmpty) = true := by decide +kernel
  have hosted : m.hostContexts = #[] := by decide +kernel
  -- the engine holds only the unit's two texts, and no context
  have life : m.Lifetime := by
    refine ⟨fun v held => ?_, fun d kept => ?_, by decide +kernel, locks ▸ LockTable.freshSound⟩
    · rcases held with root | ⟨j, c, found, -⟩
      · rw [roots] at root
        simp only [List.mem_cons, List.not_mem_nil, or_false] at root
        rcases root with rfl | rfl <;> trivial
      · simp [contexts] at found
    · exfalso
      rcases kept with (root | host | ⟨p, mem, inside⟩) | ⟨j, c, found, -⟩
      · simp [roots] at root
      · simp [hosted] at host
      · have := Array.all_eq_true'.mp bare p mem
        simp_all
      · simp [contexts] at found
  have settled : m.Settled := fun i h found => by simp [holds] at found
  exact ⟨by decide +kernel, lockSeatedWhileHeld life settled (by decide +kernel) (fun h mem => by simp [holds] at mem)
    (.single (.run m 1 false)) (by simp [locks, LockTable.fresh])⟩

end Machine

end ScriptEngine
