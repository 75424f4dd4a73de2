import ScriptEngine.Proofs.WellFormed
import ScriptEngine.Machine.Schedule
/-!
The processes a host can reach are well formed. A host builds a process by creating it,
entering and leaving frames, installing handlers while it has a frame, continuing it with
a failure and running it, normally or temporarily, on any code; meanwhile it may change
anything that is not a process. `Machine.WellFormed` says that every process has the shape
of `Process.WellFormed`; each of these operations keeps it, a run because each instruction,
each fault and each frame it leaves keeps it. So in every reachable process a fault goes to
the innermost handler and resumes in the frame that installed it.
-/
namespace ScriptEngine

namespace Process

theorem wellFormedBare {p : Process} (frames : p.frames = #[]) (handlers : p.handlers = #[])
    (tos : p.contextTos = 0) : p.WellFormed where
  bounded := by simp [frames]
  indexed i f hf := by simp [frames] at hf
  nested i j f g _ hf := by simp [frames] at hf
  top f hf := by simp [frames] at hf
  owned k h hh := by simp [handlers] at hh
  tos := by simp [tos]

theorem WellFormed.ofStacks {p q : Process} (wf : p.WellFormed) (frames : q.frames = p.frames)
    (limits : q.limits = p.limits) (values : q.values = p.values)
    (contexts : q.contexts = p.contexts) (handlers : q.handlers = p.handlers)
    (tos : q.contextTos = p.contextTos) : q.WellFormed := by
  refine wf.reframe (fun i => by rw [frames]) limits handlers (fun f top => ?_) ?_
  · rw [frames] at top
    rw [values, contexts, handlers]
    exact wf.top f top
  · rw [tos, contexts]
    exact wf.tos

theorem WellFormed.setLocals {p : Process} (wf : p.WellFormed) {k : Nat} {f : Frame}
    (hf : p.frames[k]? = some f) (locals : Array Value) :
    { p with frames := p.frames.set! k { f with locals := locals } }.WellFormed := by
  have lt := (Array.getElem?_eq_some_iff.mp hf).1
  have depths : ∀ i : Nat, (p.frames.set! k { f with locals := locals })[i]?.map Frame.depths =
      p.frames[i]?.map Frame.depths := by
    intro i
    rw [Array.set!_eq_setIfInBounds, Array.getElem?_setIfInBounds]
    by_cases same : k = i
    · subst same
      rw [if_pos rfl, if_pos lt, hf]
      rfl
    · rw [if_neg same]
  refine wf.reframe depths rfl rfl (fun g top => ?_) wf.tos
  -- the top frame keeps its depths, so it still fits the unchanged stacks
  have size : (p.frames.set! k { f with locals := locals }).size = p.frames.size := by simp
  rw [Array.back?_eq_getElem?, size] at top
  have := depths (p.frames.size - 1)
  rw [top] at this
  cases hb : p.frames[p.frames.size - 1]? with
  | none => simp [hb] at this
  | some t =>
    simp only [hb, Option.map_some, Option.some.injEq, Frame.depths, Prod.mk.injEq] at this
    have fits := wf.top t (by rw [Array.back?_eq_getElem?, hb])
    dsimp only
    omega

theorem unwindGoId (fault : Fault) : ∀ (fuel : Nat) (p : Process),
    (unwind.go fault fuel p).1.id = p.id
  | 0, _ => rfl
  | fuel + 1, p => by
    unfold unwind.go
    split
    · rfl
    · dsimp only
      split
      · exact unwindGoId fault fuel _
      · split <;> rfl

theorem unwindId (p : Process) (fault : Fault) : (p.unwind fault).1.id = p.id :=
  unwindGoId fault _ p

theorem returnFromFrameId {p q : Process} {value : Option Value}
    (h : p.returnFromFrame value = some q) : q.id = p.id := by
  obtain ⟨_, _, _, _, rfl, _⟩ := returnFromFrameSome h
  rfl

end Process

namespace Machine

/-- Process `pid` of the engine, if there is one, is well formed. -/
def WellFormedAt (m : Machine) (pid : Nat) : Prop :=
  ∀ p : Process, m.proc? pid = some p → p.WellFormed

/-- Every process of the engine is well formed. -/
def WellFormed (m : Machine) : Prop := ∀ pid : Nat, m.WellFormedAt pid

variable {m m' : Machine} {q : Nat}

theorem WellFormedAt.setFound (wf : m.WellFormedAt q) {pid : Nat} {p r : Process}
    (found : m.proc? pid = some p) (same : r.id = p.id) (keeps : p.WellFormed → r.WellFormed) :
    (m.setProc r).WellFormedAt q := by
  intro p' found'
  rw [procSetProc] at found'
  split at found'
  · rename_i hq
    have hpid : q = pid := hq.trans (same.trans (procIdOf found))
    subst hpid
    rw [same, procIdOf found, found] at found'
    cases found'
    exact keeps (wf p found)
  · exact wf p' found'

theorem WellFormedAt.ofProcs (wf : m.WellFormedAt q) (same : m'.procs = m.procs) :
    m'.WellFormedAt q :=
  fun p found => wf p (by rwa [procOfProcs same] at found)

theorem WellFormedAt.modifyProc (wf : m.WellFormedAt q) (pid : Nat) {f : Process → Process}
    (keeps : ∀ p : Process, p.WellFormed → (f p).WellFormed)
    (same : ∀ p : Process, (f p).id = p.id) : (m.modifyProc pid f).WellFormedAt q := by
  intro p found
  rw [procModifyProc m pid q f (fun p h => (same p).trans h)] at found
  split at found
  · rename_i hq
    subst hq
    cases h : m.proc? q with
    | none => simp [h] at found
    | some p' =>
      simp only [h, Option.map_some, Option.some.injEq] at found
      exact found ▸ keeps p' (wf p' h)
  · exact wf p found

theorem WellFormedAt.change {pid : Nat} (wf : m.WellFormedAt q) (h : Change pid m m') :
    m'.WellFormedAt q := by
  cases h with
  | proc found step => exact wf.setFound found step.id step.wellFormed
  | view v i x =>
    rcases setViewLocalEq m v i x with same | ⟨p, k, f, found, hf, eq⟩
    · rw [same]
      exact wf
    · rw [eq]
      exact wf.setFound found rfl fun wf => wf.setLocals hf _
  | outside same => exact wf.ofProcs same

theorem WellFormedAt.evolves {pid : Nat} (wf : m.WellFormedAt q) (h : Evolves pid m m') :
    m'.WellFormedAt q := by
  induction h with
  | refl => exact wf
  | tail _ step ih => exact ih.change step

theorem WellFormedAt.step (wf : m.WellFormedAt q) {pid : Nat} {r : Except Fault Outcome}
    (stepped : m.step pid = (m', r)) : m'.WellFormedAt q := by
  have := wf.evolves (stepEvolves m pid)
  rwa [stepped] at this

theorem settleProcs (m : Machine) : m.settle.procs = m.procs := by
  unfold settle
  split <;> rfl

theorem observeProcs (m : Machine) (pid : Nat) : (m.observe pid).procs = m.procs := by
  unfold observe
  split
  · split <;> rfl
  · rfl

theorem WellFormedAt.settle (wf : m.WellFormedAt q) : m.settle.WellFormedAt q :=
  wf.ofProcs (settleProcs m)

theorem WellFormedAt.finish (wf : m.WellFormedAt q) (pid : Nat) (status : Status) :
    (m.finish pid status).WellFormedAt q := by
  unfold Machine.finish
  split
  · exact wf
  · rename_i p found
    exact wf.setFound found rfl fun _ => Process.wellFormedBare rfl rfl rfl

theorem WellFormedAt.failWith (wf : m.WellFormedAt q) (pid : Nat) (message : String) :
    (m.failWith pid message).WellFormedAt q := by
  unfold Machine.failWith
  split
  · exact wf
  · rename_i p found
    dsimp only
    refine WellFormedAt.finish ?_ pid .failed
    exact wf.setFound found rfl fun wf => wf.ofStacks rfl rfl rfl rfl rfl rfl

theorem WellFormedAt.raise (wf : m.WellFormedAt q) (pid : Nat) (fault : Fault) :
    (m.raise pid fault).1.WellFormedAt q := by
  unfold Machine.raise
  split
  · exact wf
  · rename_i p found
    have same := Process.unwindId p fault
    split
    · rename_i r caught
      rw [caught] at same
      exact wf.setFound found same fun wf => by simpa [caught] using wf.unwind fault
    · rename_i r uncaught
      rw [uncaught] at same
      exact (wf.setFound found same fun wf => by simpa [uncaught] using wf.unwind fault).failWith
        pid fault.message

theorem WellFormedAt.leaveFrame (wf : m.WellFormedAt q) (pid : Nat) (value : Option Value) :
    (m.leaveFrame pid value).WellFormedAt q := by
  unfold Machine.leaveFrame
  split
  · rename_i p found
    split
    · rename_i r left
      exact wf.setFound found (Process.returnFromFrameId left) fun wf => wf.returnFromFrame left
    · exact wf
  · exact wf

theorem WellFormedAt.setStatus (wf : m.WellFormedAt q) (pid : Nat) (status : Status) :
    (m.modifyProc pid fun p => { p with status := status }).WellFormedAt q :=
  wf.modifyProc pid (fun _ wf => wf.ofStacks rfl rfl rfl rfl rfl rfl) (fun _ => rfl)

theorem WellFormedAt.raiseTo (wf : m.WellFormedAt q) {pid : Nat} {fault : Fault} {caught : Bool}
    (raised : m.raise pid fault = (m', caught)) : m'.WellFormedAt q := by
  have := wf.raise pid fault
  rwa [raised] at this

/-! Runs. -/

/-- What each part of a run of process `pid` keeps: showing the process to the coverage
recorder, an instruction, settling, a return, a raised fault, the end of the process, its
pause, and the allowance running out. -/
structure KeptByRun (I : Machine → Prop) (pid : Nat) : Prop where
  observed : ∀ m fuel, I m → I ({ m.observe pid with budget := fuel } : Machine)
  stepped : ∀ {m m' : Machine} {r : Except Fault Outcome}, I m → m.step pid = (m', r) → I m'
  settled : ∀ m, I m → I m.settle
  left : ∀ m value, I m → I (m.leaveFrame pid value)
  raised : ∀ {m m' : Machine} {fault : Fault} {caught : Bool}, I m →
    m.raise pid fault = (m', caught) → I m'
  finished : ∀ m status, I m → I (m.finish pid status)
  paused : ∀ m status, I m → I (m.modifyProc pid fun p => { p with status := status })
  exhausted : ∀ m, I m → I ({ m with budget := 0, exhausted := true } : Machine)

theorem KeptByRun.runLoop {I : Machine → Prop} {pid : Nat} (keeps : KeptByRun I pid)
    (temporary : Bool) (fuel : Nat) (m : Machine) : I m → I (Machine.runLoop pid temporary fuel m) := by
  -- an instruction runs once the process is shown to the coverage recorder
  have moved : ∀ {m m' : Machine} {fuel : Nat} {r : Except Fault Outcome}, I m →
      ({ m.observe pid with budget := fuel } : Machine).step pid = (m', r) → I m' :=
    fun h step => keeps.stepped (keeps.observed _ _ h) step
  -- one case per way an instruction ends
  fun_induction Machine.runLoop pid temporary fuel m with
  | case1 => exact id
  | case2 m p found empty => exact fun h => keeps.settled _ (keeps.finished _ _ h)
  | case3 m p found framed => exact keeps.exhausted m
  | case4 m p found framed fuel m₁ m₂ step ih => exact fun h => ih (keeps.settled _ (moved h step))
  | case5 m p found framed fuel m₁ m₂ v step ih =>
    exact fun h => ih (keeps.settled _ (keeps.left _ v (moved h step)))
  | case6 m p found framed fuel m₁ m₂ wait temp m₃ caught step ih =>
    exact fun h => ih (keeps.settled _ (keeps.raised (moved h step) caught))
  | case7 m p found framed fuel m₁ m₂ wait temp m₃ uncaught step =>
    exact fun h => keeps.settled _ (keeps.raised (moved h step) uncaught)
  | case8 m p found framed fuel m₁ m₂ wait temp step =>
    exact fun h => keeps.settled _ (keeps.paused _ _ (moved h step))
  | case9 m p found framed fuel m₁ m₂ step =>
    exact fun h => keeps.settled _ (keeps.finished _ _ (moved h step))
  | case10 m p found framed fuel m₁ m₂ e m₃ caught step ih =>
    exact fun h => ih (keeps.settled _ (keeps.raised (moved h step) caught))
  | case11 m p found framed fuel m₁ m₂ e m₃ uncaught step =>
    exact fun h => keeps.settled _ (keeps.raised (moved h step) uncaught)

theorem KeptByRun.execute {I : Machine → Prop} {pid : Nat} (keeps : KeptByRun I pid) {m : Machine}
    (temporary : Bool)
    (started : ∀ p, m.proc? pid = some p → ∀ pending : Option Fault,
      I (m.setProc { p with generation := p.generation + 1, status := .running, pending := pending }))
    (start : I m) : I (m.execute pid temporary) := by
  unfold Machine.execute
  split
  · exact start
  · rename_i p found
    split
    · exact start
    · dsimp only
      split
      · -- a pending fault is raised first
        split
        · rename_i m' raised
          exact keeps.runLoop temporary _ _ (keeps.settled _ (keeps.raised (started p found none) raised))
        · rename_i m' raised
          exact keeps.settled _ (keeps.raised (started p found none) raised)
      · exact keeps.runLoop temporary _ _ (started p found p.pending)

theorem WellFormedAt.keptByRun (q pid : Nat) : KeptByRun (fun m => m.WellFormedAt q) pid where
  observed _ _ wf := wf.ofProcs (observeProcs _ pid)
  stepped wf step := wf.step step
  settled _ wf := wf.settle
  left _ value wf := wf.leaveFrame pid value
  raised wf raised := wf.raiseTo raised
  finished _ status wf := wf.finish pid status
  paused _ status wf := wf.setStatus pid status
  exhausted _ wf := wf.ofProcs rfl

theorem WellFormedAt.runLoop (pid : Nat) (temporary : Bool) (fuel : Nat) :
    m.WellFormedAt q → (runLoop pid temporary fuel m).WellFormedAt q :=
  (WellFormedAt.keptByRun q pid).runLoop temporary fuel m

theorem WellFormedAt.execute (wf : m.WellFormedAt q) (pid : Nat) (temporary : Bool) :
    (m.execute pid temporary).WellFormedAt q :=
  (WellFormedAt.keptByRun q pid).execute temporary
    (fun _ found _ => wf.setFound found rfl fun wf => wf.ofStacks rfl rfl rfl rfl rfl rfl) wf

theorem WellFormedAt.run (wf : m.WellFormedAt q) (pid : Nat) : (m.run pid).WellFormedAt q :=
  wf.execute pid false

theorem WellFormedAt.runTemporary (wf : m.WellFormedAt q) (pid : Nat) :
    (m.runTemporary pid).1.WellFormedAt q :=
  wf.execute pid true

/-! The host's other operations on processes. -/

theorem findInsertIdx {α : Type} (P : α → Bool) {b a : α} :
    ∀ (l : List α) (i : Nat), (l.insertIdx i b).find? P = some a → a = b ∨ l.find? P = some a
  | l, 0, h => by
    rw [List.insertIdx_zero, List.find?_cons] at h
    split at h
    · exact .inl (Option.some.inj h).symm
    · exact .inr h
  | [], _ + 1, h => by simp [List.insertIdx_succ_nil] at h
  | x :: l, i + 1, h => by
    rw [List.insertIdx_succ_cons, List.find?_cons] at h
    rw [List.find?_cons]
    split at h
    · exact .inr h
    · exact findInsertIdx P l i h

theorem procCreate (m : Machine) (name : String) {pid : Nat} {p : Process}
    (found : (m.create name).1.proc? pid = some p) :
    p = { id := m.nextPid, name := name, priority := m.config.defaultPriority,
          limits := m.config.limits } ∨ m.proc? pid = some p := by
  simp only [create, proc?, Array.insertIdxIfInBounds] at found
  split at found
  · rename_i within
    rw [← Array.find?_toList, Array.toList_insertIdx within] at found
    rw [proc?, ← Array.find?_toList]
    exact findInsertIdx _ _ _ found
  · exact .inr found

theorem WellFormedAt.create (wf : m.WellFormedAt q) (name : String) :
    (m.create name).1.WellFormedAt q := by
  intro p found
  rcases procCreate m name found with rfl | old
  · exact Process.wellFormedBare rfl rfl rfl
  · exact wf p old

theorem WellFormedAt.continueWithFailure (wf : m.WellFormedAt q) (pid : Nat) (message : String) :
    (m.continueWithFailure pid message).1.WellFormedAt q := by
  unfold Machine.continueWithFailure
  split
  · rename_i p found
    split
    · exact wf.setFound found rfl fun wf => wf.ofStacks rfl rfl rfl rfl rfl rfl
    · exact wf
  · exact wf

theorem WellFormedAt.pushFrame (wf : m.WellFormedAt q) (pid : Nat) (code : CodeId) (w : Bool) :
    ((Exec.pushFrame pid code w).run m).2.WellFormedAt q :=
  wf.evolves (Exec.postState.mp (Exec.pushFrameEvolves code w m))

/-- The engine states a host reaches from one without processes: it creates processes,
enters frames and leaves them, installs handlers in processes that have a frame, continues
waiting processes with a failure, runs processes normally or temporarily on whatever code
the engine holds, and changes anything that is not a process. -/
inductive Reachable : Machine → Prop
  | start {m : Machine} (empty : m.procs = #[]) : Reachable m
  | create {m : Machine} (name : String) : Reachable m → Reachable (m.create name).1
  | pushFrame {m : Machine} (pid : Nat) (code : CodeId) (w : Bool) :
      Reachable m → Reachable ((Exec.pushFrame pid code w).run m).2
  | popFrame {m : Machine} (pid : Nat) : Reachable m → Reachable (m.leaveFrame pid none)
  | pushHandler {m : Machine} {pid : Nat} {p : Process} (pc : Nat) : Reachable m →
      m.proc? pid = some p → p.frames ≠ #[] → Reachable (m.setProc (p.pushHandler pc))
  | continueWithFailure {m : Machine} (pid : Nat) (message : String) :
      Reachable m → Reachable (m.continueWithFailure pid message).1
  | run {m : Machine} (pid : Nat) : Reachable m → Reachable (m.run pid)
  | runTemporary {m : Machine} (pid : Nat) : Reachable m → Reachable (m.runTemporary pid).1
  | outside {m m' : Machine} : Reachable m → m'.procs = m.procs → Reachable m'

theorem Reachable.wellFormed (reach : m.Reachable) : m.WellFormed := by
  induction reach with
  | start empty => intro pid p found; simp [proc?, empty] at found
  | create name _ ih => exact fun q => (ih q).create name
  | pushFrame pid code w _ ih => exact fun q => (ih q).pushFrame pid code w
  | popFrame pid _ ih => exact fun q => (ih q).leaveFrame pid none
  | pushHandler pc _ found framed ih =>
    exact fun q => (ih q).setFound found rfl fun wf => wf.pushHandler pc framed
  | continueWithFailure pid message _ ih => exact fun q => (ih q).continueWithFailure pid message
  | run pid _ ih => exact fun q => (ih q).run pid
  | runTemporary pid _ ih => exact fun q => (ih q).runTemporary pid
  | outside _ same ih => exact fun q => (ih q).ofProcs same

/-- Every process a host reaches is well formed, and a fault in it goes to its innermost
handler: the frame that installed the handler becomes the top frame and resumes at the
handler's `pc`, above the stacks as they were when the handler was installed, with only that
handler removed. -/
theorem reachableShapeRouting {m : Machine} (reach : m.Reachable) {pid : Nat} {p : Process}
    (found : m.proc? pid = some p) :
    p.WellFormed ∧ ∀ (fault : Fault) (h : Handler), p.handlers.back? = some h →
      ∃ f : Frame, p.frames[h.frameSp - 1]? = some f ∧ 0 < h.frameSp ∧
        p.unwind fault =
          ({ p with
            frames := (p.frames.take h.frameSp).pop.push
              { f with pc := h.pc, contextTos := min f.contextTos (p.contexts.take h.contextSp).size }
            contexts := p.contexts.take h.contextSp
            contextTos := min f.contextTos (p.contexts.take h.contextSp).size
            handlers := p.handlers.pop
            values := (p.values.take h.valueSp).push (.str fault.message) }, true) := by
  have wf := reach.wellFormed pid p found
  exact ⟨wf, fun fault _ back => wf.unwindCatch fault back⟩

/-- A new process with one frame entered is reached, and it is well formed. -/
theorem enteredProcessWellFormed :
    ∃ p : Process,
      ((Exec.pushFrame 1 ⟨0⟩ true).run (({} : Machine).create "main").1).2.proc? 1 = some p ∧
        p.WellFormed := by
  have entered :
      (((Exec.pushFrame 1 ⟨0⟩ true).run (({} : Machine).create "main").1).2.proc? 1).isSome :=
    by decide +kernel
  have found := Option.eq_some_of_isSome entered
  refine ⟨_, found, ?_⟩
  exact (@reachableShapeRouting _ (.pushFrame 1 ⟨0⟩ true (.create "main" (@Reachable.start {} rfl)))
    1 _ found).1

end Machine

end ScriptEngine
