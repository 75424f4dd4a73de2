import ScriptEngine.Proofs.Generations
import ScriptEngine.Proofs.ListOperations
/-!
Frame views and when they go dark. A view answers for its frame, and for the contexts its
frame could see, while its process is at the generation the view was made at, and refuses
everything after. Starting a run of a process that is neither frozen nor finished moves its
generation on; generations only grow and no process is made twice, so a dark view stays dark
through every later operation of the process list. Nothing else moves a generation: after
the viewed frame is popped, or the process is ended from outside, the view no longer finds
the frame's locals but still answers for the contexts its frame could see.
-/
namespace ScriptEngine

namespace Machine

/-- Each process of `m'` was a process of `m`, under the same id, at the same or an earlier
generation. -/
def Ages (m m' : Machine) : Prop :=
  ∀ q ∈ m'.procs, ∃ p ∈ m.procs, p.id = q.id ∧ p.generation ≤ q.generation

/-- Each process of `m'` ages one of `m`, or has an id that `m` had not given out. -/
structure Advances (m m' : Machine) : Prop where
  nextPid : m.nextPid ≤ m'.nextPid
  procs : ∀ q ∈ m'.procs, m.nextPid ≤ q.id ∨ ∃ p ∈ m.procs, p.id = q.id ∧ p.generation ≤ q.generation

/-- The process a view shows has moved past the view's generation, or is gone. -/
def Stale (m : Machine) (v : FrameView) : Prop :=
  ∀ p ∈ m.procs, p.id = v.process → v.generation < p.generation

instance (m : Machine) (v : FrameView) : Decidable (m.Stale v) := by
  unfold Stale; infer_instance

/-- The process of every id, if there is one, is at the same generation in both. -/
def SameGenerations (m m' : Machine) : Prop :=
  ∀ pid, (m'.proc? pid).map Process.generation = (m.proc? pid).map Process.generation

variable {m m' m₁ m₂ m₃ : Machine} {pid : Nat} {p : Process} {v : FrameView}

/-! A dark view answers nothing. -/

theorem darkViewAnswersNothing {id : ContextId} (at_ : m.context? id = some (.frameView v))
    (dark : m.viewValid v = false) (name : String) :
    m.contextLookup id name = none ∧
      ∀ x, m.contextAssign id name x = .error (.entityUnavailable (.frameOf v.subroutine)) := by
  refine ⟨?_, fun x => ?_⟩
  · simp [contextLookup, contextFuel, lookupIn, at_, dark]
  · simp [contextAssign, contextFuel, assignIn, at_, dark]

theorem Stale.dark (stale : m.Stale v) : m.viewValid v = false := by
  unfold viewValid
  cases found : m.proc? v.process with
  | none => rfl
  | some p =>
    have later := stale p (Array.mem_of_find?_eq_some found) (procIdOf found)
    simp only [beq_eq_false_iff_ne, ne_eq]
    omega

/-! Aging. -/

theorem Ages.refl (m : Machine) : Ages m m := fun q mem => ⟨q, mem, rfl, Nat.le_refl _⟩

theorem Ages.trans (h₁ : Ages m₁ m₂) (h₂ : Ages m₂ m₃) : Ages m₁ m₃ := by
  intro r mem
  obtain ⟨q, mem', same, le⟩ := h₂ r mem
  obtain ⟨p, mem'', same', le'⟩ := h₁ q mem'
  exact ⟨p, mem'', same'.trans same, Nat.le_trans le' le⟩

theorem Ages.sub (sub : ∀ q ∈ m'.procs, q ∈ m.procs) : Ages m m' :=
  fun q mem => ⟨q, sub q mem, rfl, Nat.le_refl _⟩

theorem Ages.ofProcs (same : m'.procs = m.procs) : Ages m m' :=
  Ages.sub fun _ mem => same ▸ mem

theorem Ages.map {f : Process → Process} (same : m'.procs = m.procs.map f)
    (keeps : ∀ p, (f p).id = p.id ∧ (f p).generation = p.generation) : Ages m m' := by
  intro x mem
  rw [same] at mem
  obtain ⟨p, mem', rfl⟩ := Array.mem_map.mp mem
  exact ⟨p, mem', (keeps p).1.symm, Nat.le_of_eq (keeps p).2.symm⟩

theorem Ages.modifyProc (f : Process → Process)
    (keeps : ∀ p, m.proc? pid = some p → (f p).id = p.id ∧ p.generation ≤ (f p).generation) :
    Ages m (m.modifyProc pid f) := by
  intro x mem
  rw [modifyProcFirst] at mem
  rcases memModifyFirst f (List.mem_toArray.mp mem) with old | ⟨p, found, rfl⟩
  · exact ⟨x, Array.mem_toList_iff.mp old, rfl, Nat.le_refl _⟩
  · have found' : m.proc? pid = some p := by rw [proc?, ← Array.find?_toList]; exact found
    obtain ⟨same, le⟩ := keeps p found'
    exact ⟨p, Array.mem_of_find?_eq_some found', same.symm, le⟩

theorem Ages.setProc {r : Process} (mem : p ∈ m.procs) (same : r.id = p.id)
    (le : p.generation ≤ r.generation) : Ages m (m.setProc r) := by
  intro x memx
  rw [Machine.setProc, modifyProcFirst] at memx
  rcases memModifyFirst _ (List.mem_toArray.mp memx) with old | ⟨-, -, rfl⟩
  · exact ⟨x, Array.mem_toList_iff.mp old, rfl, Nat.le_refl _⟩
  · exact ⟨p, mem, same.symm, le⟩

theorem Ages.setFound {r : Process} (found : m.proc? pid = some p) (same : r.id = p.id)
    (le : p.generation ≤ r.generation) : Ages m (m.setProc r) :=
  Ages.setProc (Array.mem_of_find?_eq_some found) same le

theorem Stale.ages (stale : m.Stale v) (ages : Ages m m') : m'.Stale v := by
  intro q mem own
  obtain ⟨p, mem', same, le⟩ := ages q mem
  exact Nat.lt_of_lt_of_le (stale p mem' (same.trans own)) le

/-! Aging along a run: an instruction, the frame it leaves, the fault it raises, the end. -/

theorem Ages.change (h : Change pid m m') : Ages m m' := by
  cases h with
  | proc found step => exact Ages.setFound found step.id (Nat.le_of_eq step.generation.symm)
  | view v i x =>
    rcases setViewLocalEq m v i x with same | ⟨p, k, f, found, -, eq⟩
    · rw [same]
      exact Ages.refl m
    · rw [eq]
      exact Ages.setFound found rfl (Nat.le_refl _)
  | outside same => exact Ages.ofProcs same

theorem Ages.evolves (h : Evolves pid m m') : Ages m m' := by
  induction h with
  | refl => exact Ages.refl m
  | tail _ step ih => exact ih.trans (Ages.change step)

theorem Ages.stepTo {r : Except Fault Outcome} (stepped : m.step pid = (m', r)) : Ages m m' := by
  have aged := Ages.evolves (stepEvolves m pid)
  rwa [stepped] at aged

theorem Ages.settle (m : Machine) : Ages m m.settle := Ages.ofProcs (settleProcs m)

theorem Ages.finish (status : Status) : Ages m (m.finish pid status) := by
  unfold Machine.finish
  split
  · exact Ages.refl m
  · rename_i p found
    exact Ages.setFound found rfl (Nat.le_refl _)

theorem Ages.failWith (message : String) : Ages m (m.failWith pid message) := by
  unfold Machine.failWith
  split
  · exact Ages.refl m
  · rename_i p found
    refine Ages.trans ?_ (Ages.finish .failed)
    exact Ages.setFound found rfl (Nat.le_refl _)

theorem Ages.raise (fault : Fault) : Ages m (m.raise pid fault).1 := by
  unfold Machine.raise
  split
  · exact Ages.refl m
  · rename_i p found
    have unwound := Ages.setFound found (Process.unwindId p fault)
      (Nat.le_of_eq (Process.unwindGeneration p fault).symm)
    rcases caught : p.unwind fault with ⟨q, _ | _⟩
    all_goals rw [caught] at unwound
    · exact unwound.trans (Ages.failWith _)
    · exact unwound

theorem Ages.raiseTo {fault : Fault} {caught : Bool} (raised : m.raise pid fault = (m', caught)) :
    Ages m m' := by
  have aged : Ages m (m.raise pid fault).1 := Ages.raise fault
  rwa [raised] at aged

theorem Ages.leaveFrame (value : Option Value) : Ages m (m.leaveFrame pid value) := by
  unfold Machine.leaveFrame
  split
  · rename_i p found
    split
    · rename_i r left
      exact Ages.setFound found (Process.returnFromFrameId left)
        (Nat.le_of_eq (Process.returnFromFrameGeneration left).symm)
    · exact Ages.refl m
  · exact Ages.refl m

theorem Ages.setStatus (status : Status) :
    Ages m (m.modifyProc pid fun p => { p with status := status }) :=
  Ages.modifyProc _ fun _ _ => ⟨rfl, Nat.le_refl _⟩

theorem Ages.keptByRun (m : Machine) (pid : Nat) : KeptByRun (Ages m) pid where
  observed m' _ h := h.trans (Ages.ofProcs (observeProcs m' pid))
  stepped h step := h.trans (Ages.stepTo step)
  settled _ h := h.trans (Ages.settle _)
  left _ value h := h.trans (Ages.leaveFrame value)
  raised h raised := h.trans (Ages.raiseTo raised)
  finished _ status h := h.trans (Ages.finish status)
  paused _ status h := h.trans (Ages.setStatus status)
  exhausted _ h := h.trans (Ages.ofProcs rfl)

theorem Ages.runLoop (temporary : Bool) (fuel : Nat) (m : Machine) :
    Ages m (Machine.runLoop pid temporary fuel m) :=
  (Ages.keptByRun m pid).runLoop temporary fuel m (Ages.refl m)

theorem Ages.execute (m : Machine) (pid : Nat) (temporary : Bool) : Ages m (m.execute pid temporary) :=
  (Ages.keptByRun m pid).execute temporary (fun _ found _ => Ages.setFound found rfl (Nat.le_succ _))
    (Ages.refl m)

/-! Advancing: the operations of the process list. -/

theorem nextPidOfLedger (same : m'.ledger = m.ledger) : m'.nextPid = m.nextPid :=
  congrArg (fun l => l.2.1) same

theorem Advances.ofAges (ages : Ages m m') (next : m.nextPid ≤ m'.nextPid) : Advances m m' :=
  ⟨next, fun q mem => .inr (ages q mem)⟩

theorem Advances.ofLedger (ages : Ages m m') (same : m'.ledger = m.ledger) : Advances m m' :=
  Advances.ofAges ages (Nat.le_of_eq (nextPidOfLedger same).symm)

theorem Advances.refl (m : Machine) : Advances m m := Advances.ofAges (Ages.refl m) (Nat.le_refl _)

theorem Advances.trans (h₁ : Advances m₁ m₂) (h₂ : Advances m₂ m₃) : Advances m₁ m₃ := by
  refine ⟨Nat.le_trans h₁.nextPid h₂.nextPid, fun r mem => ?_⟩
  rcases h₂.procs r mem with new | ⟨q, mem', same, le⟩
  · exact .inl (Nat.le_trans h₁.nextPid new)
  · rcases h₁.procs q mem' with new | ⟨p, mem'', same', le'⟩
    · exact .inl (same ▸ new)
    · exact .inr ⟨p, mem'', same'.trans same, Nat.le_trans le' le⟩

theorem Stale.advances (stale : m.Stale v) (adv : Advances m m') (shown : v.process < m.nextPid) :
    m'.Stale v := by
  intro q mem own
  rcases adv.procs q mem with new | ⟨p, mem', same, le⟩
  · omega
  · exact Nat.lt_of_lt_of_le (stale p mem' (same.trans own)) le

theorem Advances.settle (m : Machine) : Advances m m.settle :=
  Advances.ofLedger (Ages.settle m) (ledgerSettle m)

theorem Advances.failWith (m : Machine) (pid : Nat) (message : String) :
    Advances m (m.failWith pid message) :=
  Advances.ofLedger (Ages.failWith message) (ledgerFailWith m pid message)

theorem Advances.run (m : Machine) (pid : Nat) : Advances m (m.run pid) :=
  Advances.ofLedger (Ages.execute m pid false) (asideExecute m pid false).ledger

theorem Advances.startGroup (m : Machine) (g : Nat) : Advances m (m.startGroup g) := by
  unfold Machine.startGroup
  split
  · exact Advances.refl m
  · split
    · rename_i p first
      exact Advances.ofLedger (Ages.setProc (Array.mem_of_find?_eq_some first) rfl (Nat.le_refl _))
        (ledgerSetProc m _)
    · exact Advances.ofAges (Ages.ofProcs rfl) (Nat.le_refl _)

theorem Advances.setFound {r : Process} (found : m.proc? pid = some p) (same : r.id = p.id)
    (le : p.generation ≤ r.generation) : Advances m (m.setProc r) :=
  Advances.ofLedger (Ages.setFound found same le) (ledgerSetProc m r)

theorem Advances.runListGo (fuel : Nat) : ∀ m : Machine, Advances m (runList.go m fuel) := by
  induction fuel with
  | zero => exact Advances.refl
  | succ fuel ih =>
    intro m
    have next : ∀ M, Advances m M → Advances m (runList.go M fuel) := fun M h => h.trans (ih M)
    rw [runList.go.eq_2]
    split
    · exact Advances.refl m
    split
    · exact Advances.refl m
    rename_i p first
    have ran := Advances.run m p.id
    dsimp only
    split
    · exact ran
    split
    · exact next _ ran
    rename_i q found
    -- a process that returned while still active fails first
    have failed := ran.trans (((Advances.failWith _ q.id "Process returned while still active").trans
      (Advances.settle _)).trans (Advances.startGroup _ q.group))
    split
    · exact next _ ran
    · exact next _ failed
    · exact next _ failed
    · exact next _ (ran.trans (Advances.startGroup _ _))

theorem Advances.create (m : Machine) (name : String) : Advances m (m.create name).1 := by
  obtain ⟨r, -, new, -, i, made⟩ := createMakes m name
  rw [made]
  refine ⟨Nat.le_succ _, fun q mem => ?_⟩
  unfold Array.insertIdxIfInBounds at mem
  split at mem
  · -- the new process has the id that was next
    rename_i within
    have perm : (m.procs.insertIdx i r within).toList.Perm (r :: m.procs.toList) := by
      rw [Array.toList_insertIdx]
      exact List.perm_insertIdx r _ (by simpa using within)
    rcases List.mem_cons.mp (perm.subset (Array.mem_toList_iff.mpr mem)) with rfl | old
    · exact .inl (Nat.le_of_eq new.symm)
    · exact .inr ⟨q, Array.mem_toList_iff.mp old, rfl, Nat.le_refl _⟩
  · exact .inr ⟨q, mem, rfl, Nat.le_refl _⟩

theorem Advances.perform (m : Machine) (op : ListOp) : Advances m (m.perform op) := by
  cases op with
  | create name => exact Advances.create m name
  | allocateGroup => exact Advances.ofAges (Ages.ofProcs rfl) (Nat.le_refl _)
  | resume pid g =>
    show Advances m (m.resume pid g).1
    unfold Machine.resume
    split
    · rename_i p found
      split
      · exact Advances.setFound found rfl (Nat.le_refl _)
      · exact Advances.refl m
    · exact Advances.refl m
  | resumeSuspended g =>
    show Advances m (m.resumeSuspended g).1
    refine Advances.ofAges (Ages.map rfl fun p => ?_) (Nat.le_refl _)
    split <;> exact ⟨rfl, rfl⟩
  | join pid g =>
    show Advances m (m.join pid g).1
    unfold Machine.join
    split
    · exact Advances.refl m
    · split
      · exact Advances.refl m
      · refine Advances.ofAges (Ages.map rfl fun q => ?_) (Nat.le_refl _)
        split <;> exact ⟨rfl, rfl⟩
  | startGroup g => exact Advances.startGroup m g
  | run => exact Advances.runListGo _ m
  | continueProcess pid =>
    show Advances m (m.continueProcess pid).1
    unfold Machine.continueProcess
    split
    · rename_i p found
      split
      · exact Advances.setFound found rfl (Nat.le_refl _)
      · exact Advances.refl m
    · exact Advances.refl m
  | continueWithFailure pid message =>
    show Advances m (m.continueWithFailure pid message).1
    unfold Machine.continueWithFailure
    split
    · rename_i p found
      split
      · exact Advances.setFound found rfl (Nat.le_refl _)
      · exact Advances.refl m
    · exact Advances.refl m
  | terminate pid =>
    show Advances m (m.terminate pid).1
    unfold Machine.terminate
    split
    · exact Advances.refl m
    · -- the process ends, and its group may move on
      have ended : Advances m (m.finish pid .terminated).settle :=
        (Advances.ofLedger (Ages.finish .terminated) (ledgerFinish m pid _)).trans (Advances.settle _)
      dsimp only
      split
      · exact ended.trans (Advances.startGroup _ _)
      · exact ended
  | setPriority pid priority =>
    show Advances m (m.setPriority pid priority).1
    unfold Machine.setPriority
    split
    · rename_i p found
      -- the process takes its new place: the same processes in another order
      obtain ⟨ps, perm, moved⟩ := handlePriorityChangePerm (m.setProc { p with priority := priority }) pid
      rw [moved]
      refine (Advances.setFound (r := { p with priority := priority }) found rfl (Nat.le_refl _)).trans
        (Advances.ofAges (Ages.sub fun q mem => ?_) (Nat.le_refl _))
      exact Array.mem_toList_iff.mp (perm.toList.subset (Array.mem_toList_iff.mpr mem))
    · exact Advances.refl m
  | removeTerminated =>
    obtain ⟨procs, next, -⟩ := removeTerminatedKeeps m
    refine Advances.ofAges (Ages.sub fun q mem => ?_) (Nat.le_of_eq next.symm)
    rw [Machine.perform, procs] at mem
    exact (Array.mem_filter.mp mem).1

theorem Advances.performAll (ops : List ListOp) : ∀ m : Machine, Advances m (m.performAll ops) := by
  induction ops with
  | nil => exact Advances.refl
  | cons op ops ih => exact fun m => (Advances.perform m op).trans (ih (m.perform op))

/-! Starting a run. -/

theorem memModifyFirstOwn {q : Nat} {r x : Process} :
    ∀ {l : List Process}, (l.map (·.id)).Nodup → x ∈ modifyFirst q (fun _ => r) l → x.id = q → x = r
  | [], _, mem, _ => by simp [modifyFirst] at mem
  | a :: l, nodup, mem, own => by
    rw [List.map_cons, List.nodup_cons] at nodup
    by_cases ha : a.id = q
    · simp only [modifyFirst, ha, if_true, List.mem_cons] at mem
      rcases mem with rfl | mem
      · rfl
      · exact absurd (List.mem_map.mpr ⟨x, mem, own.trans ha.symm⟩) nodup.1
    · simp only [modifyFirst, ha, if_false, List.mem_cons] at mem
      rcases mem with rfl | mem
      · exact absurd own ha
      · exact memModifyFirstOwn nodup.2 mem own

theorem memSetProcOwn (distinct : m.Distinct) {r x : Process} (mem : x ∈ (m.setProc r).procs)
    (own : x.id = r.id) : x = r := by
  rw [Machine.setProc, modifyProcFirst] at mem
  exact memModifyFirstOwn distinct (List.mem_toArray.mp mem) own

theorem executeStales (distinct : m.Distinct) (found : m.proc? pid = some p)
    (active : ¬(p.status = .frozen ∨ p.status.isTerminal)) (temporary : Bool)
    (own : v.process = pid) (made : v.generation ≤ p.generation) : (m.execute pid temporary).Stale v := by
  -- once started, the only process of its id is at the next generation
  have started : ∀ r : Process, r.id = p.id → r.generation = p.generation + 1 → (m.setProc r).Stale v := by
    intro r same next x mem xown
    have one := memSetProcOwn distinct mem (xown.trans (own.trans ((procIdOf found).symm.trans same.symm)))
    subst one
    omega
  unfold Machine.execute
  rw [found]
  dsimp only
  rw [if_neg (by simpa using active)]
  split
  · split
    · rename_i m' raised
      exact (started _ (by rfl) (by rfl)).ages ((Ages.raiseTo raised).trans ((Ages.settle _).trans (Ages.runLoop _ _ _)))
    · rename_i m' raised
      exact (started _ (by rfl) (by rfl)).ages ((Ages.raiseTo raised).trans (Ages.settle _))
  · exact (started _ (by rfl) (by rfl)).ages (Ages.runLoop _ _ _)

theorem executeFrozen (found : m.proc? pid = some p) (frozen : p.status = .frozen) (temporary : Bool) :
    m.execute pid temporary = m := by
  simp [Machine.execute, found, frozen]

/-! What leaves a generation where it was. -/

theorem SameGenerations.refl (m : Machine) : SameGenerations m m := fun _ => rfl

theorem SameGenerations.trans (h₁ : SameGenerations m₁ m₂) (h₂ : SameGenerations m₂ m₃) :
    SameGenerations m₁ m₃ := fun q => (h₂ q).trans (h₁ q)

theorem SameGenerations.ofProcs (same : m'.procs = m.procs) : SameGenerations m m' :=
  fun q => by rw [procOfProcs same]

theorem SameGenerations.setFound {r : Process} (found : m.proc? pid = some p) (same : r.id = p.id)
    (gen : r.generation = p.generation) : SameGenerations m (m.setProc r) := by
  intro q
  rw [procSetProc]
  split
  · rename_i own
    have at_ : m.proc? r.id = some p := by rw [same, procIdOf found]; exact found
    rw [at_, own, at_]
    simp [gen]
  · rfl

theorem SameGenerations.viewValid (same : SameGenerations m m') (v : FrameView) :
    m'.viewValid v = m.viewValid v := by
  unfold Machine.viewValid
  have same := same v.process
  rcases h : m.proc? v.process with _ | p <;> rcases h' : m'.proc? v.process with _ | q <;>
    simp_all

theorem SameGenerations.finish (status : Status) : SameGenerations m (m.finish pid status) := by
  unfold Machine.finish
  split
  · exact SameGenerations.refl m
  · rename_i p found
    exact SameGenerations.setFound found rfl rfl

theorem SameGenerations.failWith (message : String) : SameGenerations m (m.failWith pid message) := by
  unfold Machine.failWith
  split
  · exact SameGenerations.refl m
  · rename_i p found
    refine SameGenerations.trans ?_ (SameGenerations.finish .failed)
    exact SameGenerations.setFound found rfl rfl

theorem SameGenerations.leaveFrame (value : Option Value) :
    SameGenerations m (m.leaveFrame pid value) := by
  unfold Machine.leaveFrame
  split
  · rename_i p found
    split
    · rename_i r left
      exact SameGenerations.setFound found (Process.returnFromFrameId left)
        (Process.returnFromFrameGeneration left)
    · exact SameGenerations.refl m
  · exact SameGenerations.refl m

theorem SameGenerations.startGroup (distinct : m.Distinct) (g : Nat) :
    SameGenerations m (m.startGroup g) := by
  unfold Machine.startGroup
  split
  · exact SameGenerations.refl m
  · split
    · rename_i p first
      have found := procOfMem distinct (by simpa using Array.mem_of_find?_eq_some first)
      exact SameGenerations.setFound found rfl rfl
    · exact SameGenerations.ofProcs rfl

theorem SameGenerations.terminate (distinct : m.Distinct) (pid : Nat) :
    SameGenerations m (m.terminate pid).1 := by
  unfold Machine.terminate
  split
  · exact SameGenerations.refl m
  · have ended : SameGenerations m (m.finish pid .terminated).settle :=
      (SameGenerations.finish .terminated).trans (SameGenerations.ofProcs (settleProcs _))
    have still : (m.finish pid .terminated).settle.Distinct :=
      distinctAside (show Aside pid _ _ from asideSettle _) (distinctAside (asideFinish .terminated) distinct)
    dsimp only
    split
    · exact ended.trans (SameGenerations.startGroup still _)
    · exact ended

/-- A frame view answers only while it is valid. A run that starts its process takes every
view made of it before dark for good, through every later operation of the process list; the
run of a frozen process changes nothing; and popping the viewed frame, or terminating or
failing the process from outside, leaves a view as valid as it was. -/
theorem frameViewsGoDark (m : Machine) :
    (∀ (id : ContextId) (v : FrameView) (name : String),
      m.context? id = some (.frameView v) → m.viewValid v = false →
        m.contextLookup id name = none ∧
          ∀ x, m.contextAssign id name x = .error (.entityUnavailable (.frameOf v.subroutine))) ∧
    (∀ (pid : Nat) (p : Process) (v : FrameView) (temporary : Bool) (ops : List ListOp),
      m.Distinct → pid < m.nextPid → m.proc? pid = some p → ¬(p.status = .frozen ∨ p.status.isTerminal) →
        v.process = pid → v.generation ≤ p.generation →
          ((m.execute pid temporary).performAll ops).viewValid v = false) ∧
    (∀ (pid : Nat) (p : Process) (temporary : Bool),
      m.proc? pid = some p → p.status = .frozen → m.execute pid temporary = m) ∧
    (∀ (pid : Nat) (v : FrameView) (message : String), m.Distinct →
      (m.leaveFrame pid none).viewValid v = m.viewValid v ∧
        (m.terminate pid).1.viewValid v = m.viewValid v ∧
        (m.failWith pid message).viewValid v = m.viewValid v) := by
  refine ⟨fun id v name at_ dark => darkViewAnswersNothing at_ dark name, ?_, ?_, ?_⟩
  · intro pid p v temporary ops distinct shown found active own made
    -- a run gives out no id, so the view's process keeps one that was given out
    have still : v.process < (m.execute pid temporary).nextPid := by
      rw [own, nextPidOfLedger (asideExecute m pid temporary).ledger]
      exact shown
    have stale := executeStales distinct found active temporary own made
    exact (stale.advances (Advances.performAll ops _) still).dark
  · intro pid p temporary found frozen
    exact executeFrozen found frozen temporary
  · intro pid v message distinct
    exact ⟨(SameGenerations.leaveFrame none).viewValid v,
      (SameGenerations.terminate distinct pid).viewValid v, (SameGenerations.failWith message).viewValid v⟩

/-- A process in a context where x is 1 enters a unit and a view of its frame is made. The
process runs and waits, is continued and runs to its end, and the view stays dark. -/
theorem rerunFrameViewStaysDark :
    let g : Context := .bindings { name := "g", vars := [("x", .int 1)] }
    let empty : Machine := { codes := #[{ instrs := #[.control .suspend] }] }
    let placed := ((empty.addContext g).1.create "p").1.modifyProc 1
      fun p => (p.pushContext ⟨0⟩).markContextTos.1
    let made := (((Exec.pushFrame 1 ⟨0⟩ false).run placed).2).makeFrameContext 1 0
    let v : FrameView :=
      { subroutine := "", process := 1, frame := 0, localNames := #[], visible := #[⟨0⟩],
        generation := 0 }
    made.1.context? ⟨1⟩ = some (.frameView v) ∧
      ((made.1.execute 1 false).performAll [.continueProcess 1, .run]).viewValid v = false := by
  intro g empty placed made v
  exact ⟨by decide +kernel, (frameViewsGoDark made.1).2.1 1 ((made.1.proc? 1).get (by decide +kernel)) v
    false _ (by decide +kernel) (by decide +kernel) (Option.some_get _).symm (by decide +kernel) rfl
    (by decide +kernel)⟩

/-- A view of a popped frame still answers for the contexts its frame could see. A process in
a context where x is 1 enters a unit, a view of that frame is made, and the frame is popped:
the process has no frame left, and the view still looks x up as 1. -/
theorem poppedFrameViewAnswers :
    let g : Context := .bindings { name := "g", vars := [("x", .int 1)] }
    let empty : Machine := { codes := #[{ instrs := #[.control .suspend] }] }
    let placed := ((empty.addContext g).1.create "p").1.modifyProc 1
      fun p => (p.pushContext ⟨0⟩).markContextTos.1
    let made := (((Exec.pushFrame 1 ⟨0⟩ false).run placed).2).makeFrameContext 1 0
    let popped := made.1.leaveFrame 1 none
    made.2 = some ⟨1⟩ ∧ (popped.proc? 1).map (·.frames.size) = some 0 ∧
      popped.contextLookup ⟨1⟩ "x" = some (.int 1) := by
  decide +kernel

end Machine

end ScriptEngine
