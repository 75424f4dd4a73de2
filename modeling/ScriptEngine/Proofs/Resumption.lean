import ScriptEngine.Proofs.Generations
import ScriptEngine.Proofs.Compaction
import ScriptEngine.Proofs.GroupTurns
/-!
Suspension is invisible to the process that suspends. A run that stops at \x60suspend\x60 or
\x60stop\x60 and is then run again goes on exactly as the loop goes on after an instruction
that completes, such as \x60nop\x60 in its place; only the generation has moved on. Continued
with a failure instead, the process raises it at the instruction where it stopped, as if
that instruction had failed. A temporary run is an ordinary run whose loop takes every
suspension for the fault \x60cannotSuspend\x60, raised by the instruction that suspends.
-/
namespace ScriptEngine

namespace Process

@[simp] theorem modifyTopStatus (p : Process) (g : Frame → Frame) :
    (p.modifyTop g).status = p.status := by
  unfold modifyTop; split <;> rfl

@[simp] theorem modifyTopPending (p : Process) (g : Frame → Frame) :
    (p.modifyTop g).pending = p.pending := by
  unfold modifyTop; split <;> rfl

theorem modifyTopRefs (p : Process) {g : Frame → Frame} (keeps : ∀ f, (g f).locals = f.locals) :
    (p.modifyTop g).refs = p.refs := by
  unfold modifyTop
  cases top : p.frames.back? with
  | none => rfl
  | some f =>
    simp only [refs]
    conv => rhs; rw [← popPushBack top]
    simp [keeps]

def restart (p : Process) : Process :=
  { p with generation := p.generation + 1, status := .running, pending := none }

theorem restartRefs (p : Process) : p.restart.refs = p.refs := rfl

theorem restartStatus (p : Process) (s : Status) : ({ p with status := s } : Process).restart =
    p.restart := rfl

theorem restartUpdate (p : Process) (s : Status) (fault : Option Fault) :
    ({ p with status := s, pending := fault } : Process).restart = p.restart := rfl

end Process

namespace Machine

open Process

variable {pid : Nat} {m : Machine} {p : Process}

@[simp] theorem settleBudget (m : Machine) : m.settle.budget = m.budget := by
  unfold settle; split <;> rfl

@[simp] theorem modifyProcBudget (m : Machine) (q : Nat) (f : Process → Process) :
    (m.modifyProc q f).budget = m.budget := by
  unfold modifyProc; split <;> rfl

@[simp] theorem setProcBudget (m : Machine) (q : Process) : (m.setProc q).budget = m.budget :=
  modifyProcBudget m q.id _

theorem finishBudget (m : Machine) (status : Status) : (m.finish pid status).budget = m.budget := by
  unfold finish
  split <;> simp

theorem failWithBudget (m : Machine) (message : String) :
    (m.failWith pid message).budget = m.budget := by
  unfold failWith
  split <;> simp [finishBudget]

theorem raiseBudget (m : Machine) (fault : Fault) : (m.raise pid fault).1.budget = m.budget := by
  unfold raise
  split
  · rfl
  · split <;> simp [failWithBudget]

theorem modifyProcTwice (m : Machine) (q : Nat) {f g : Process → Process}
    (keeps : ∀ a : Process, a.id = q → (g a).id = q) :
    (m.modifyProc q g).modifyProc q f = m.modifyProc q fun a => f (g a) := by
  simp only [modifyProcFirst]
  rw [modifyFirstTwice keeps]

theorem setProcAsModify {q : Process} (same : q.id = pid) :
    m.setProc q = m.modifyProc pid fun _ => q := by
  rw [setProc, same]

/-! Starting a run. -/

theorem setProcOf (found : m.proc? pid = some p) (G : Process → Process) (same : (G p).id = pid) :
    m.setProc (G p) = m.modifyProc pid G := by
  rw [setProcAsModify same, ← modifyProcFound G found]

theorem executeClear {temporary : Bool} (found : m.proc? pid = some p)
    (idle : (p.status == .frozen || p.status.isTerminal) = false) (clear : p.pending = none) :
    m.execute pid temporary = runLoop pid temporary m.budget (m.setProc p.restart) := by
  unfold execute
  rw [found]
  dsimp only
  rw [if_neg (by rw [idle]; exact Bool.false_ne_true), clear]
  rcases p with ⟨⟩
  dsimp only at clear
  subst clear
  rfl

theorem executePending {temporary : Bool} {fault : Fault} (found : m.proc? pid = some p)
    (idle : (p.status == .frozen || p.status.isTerminal) = false)
    (pending : p.pending = some fault) :
    m.execute pid temporary = afterStep pid temporary m.budget (m.setProc p.restart, .error fault) := by
  unfold execute
  rw [found]
  dsimp only
  rw [if_neg (by rw [idle]; exact Bool.false_ne_true), pending, afterStep]
  have budget : ((m.setProc p.restart).raise pid fault).1.budget = (m.setProc p.restart).budget :=
    raiseBudget _ fault
  dsimp only [restart] at budget ⊢
  -- the fault is raised as the loop raises it, with the allowance the engine had
  generalize hq : ({ p with generation := p.generation + 1, status := .running, pending := none } :
    Process) = q at budget ⊢
  rcases h : (m.setProc q).raise pid fault with ⟨m', _ | _⟩
  · rfl
  · rw [h] at budget
    dsimp only at budget ⊢
    rw [budget, setProcBudget]

theorem stoppedFound (found : m.proc? pid = some p) (s : Status) :
    (m.modifyProc pid fun q => { q with status := s }).settle.proc? pid =
      some { p with status := s } := by
  rw [procOfProcs (settleProcs _), procModifyProc m pid pid (fun q => { q with status := s })
    (fun _ h => h), if_pos rfl, found]
  rfl

theorem stopRestart (found : m.proc? pid = some p) (running : p.status = .running)
    (clear : p.pending = none) (s : Status) :
    (m.modifyProc pid fun q => { q with status := s }).settle.setProc p.restart =
      m.settle.shift pid := by
  have own : p.id = pid := procIdOf found
  have started : (m.modifyProc pid fun q => { q with status := s }).settle.setProc p.restart =
      (m.modifyProc pid fun q => { q with status := s }).settle.modifyProc pid restart :=
    setProcOf (stoppedFound found s) restart own
  have back : ({ p with status := s } : Process).restart = p.shift := by
    rcases p with ⟨⟩
    dsimp only at running clear
    subst running clear
    rfl
  rw [started, ← settleModifyProc _ _ restartRefs,
    modifyProcTwice (g := fun q => { q with status := s }) _ _ (fun _ h => h),
    modifyProcFound _ found, back, ← modifyProcFound Process.shift found, ← settleShift]
  rfl

theorem runStopped (found : m.proc? pid = some p) (running : p.status = .running)
    (clear : p.pending = none) (dark : Dark pid m) {s : Status}
    (paused : s = .waiting ∨ s = .suspended) :
    (m.modifyProc pid fun q => { q with status := s }).settle.run pid =
      (afterStep pid false m.budget (m, .ok .continue)).shift pid := by
  have idle : (({ p with status := s } : Process).status == .frozen ||
      ({ p with status := s } : Process).status.isTerminal) = false := by
    rcases paused with rfl | rfl <;> rfl
  rw [run, executeClear (stoppedFound found s) idle clear, restartStatus,
    stopRestart found running clear, settleBudget, modifyProcBudget, runLoopShift _ _ dark.settle,
    afterStep]

theorem runFailing (found : m.proc? pid = some p) (running : p.status = .running)
    (clear : p.pending = none) (dark : Dark pid m) (message : String) :
    ((m.modifyProc pid fun q => { q with status := .waiting }).settle.continueWithFailure
        pid message).1.run pid =
      (afterStep pid false m.budget (m.settle, .error (.userError message))).shift pid := by
  have stopped := stoppedFound found .waiting
  have own : p.id = pid := procIdOf found
  have resumed := procSetFound
    (q := { p with status := .running, pending := some (.userError message) }) stopped own
  rw [continueWithFailure, stopped]
  dsimp only
  rw [if_pos (show (Status.waiting == Status.waiting) = true from rfl), run,
    executePending resumed rfl rfl, restartUpdate, setProcTwice]
  · rw [stopRestart found running clear, setProcBudget, settleBudget, modifyProcBudget,
      afterStepShift (runLoopShift _) dark.settle]
  · rfl

/-! A temporary run. -/

/-- The run loop, taking each instruction's outcome from \x60next\x60; a suspension stops it. -/
def loopWith (pid : Nat) (next : Machine → Machine × Except Fault Outcome) (fuel : Nat)
    (m : Machine) : Machine :=
  match m.proc? pid with
  | none => m
  | some p =>
    if p.frames.isEmpty then (m.finish pid .ended).settle
    else
      match fuel with
      | 0 => { m with budget := 0, exhausted := true }
      | fuel + 1 =>
        match next { m.observe pid with budget := fuel } with
        | (m, .ok .continue) => loopWith pid next fuel m.settle
        | (m, .ok (.ret v)) => loopWith pid next fuel (m.leaveFrame pid v).settle
        | (m, .ok (.suspend wait)) =>
          (m.modifyProc pid fun p => { p with status := if wait then .waiting else .suspended }).settle
        | (m, .ok .terminate) => (m.finish pid .terminated).settle
        | (m, .error e) =>
          match m.raise pid e with
          | (m, true) => loopWith pid next fuel m.settle
          | (m, false) => m.settle

/-- A run of \x60pid\x60 as \x60execute\x60 starts it, whose loop takes each instruction's
outcome from \x60next\x60. -/
def runWith (pid : Nat) (next : Machine → Machine × Except Fault Outcome) (m : Machine) :
    Machine :=
  match m.proc? pid with
  | none => m
  | some p =>
    if p.status == .frozen || p.status.isTerminal then m
    else
      let p := { p with generation := p.generation + 1, status := .running }
      match p.pending with
      | some fault =>
        let m := m.setProc { p with pending := none }
        match m.raise pid fault with
        | (m, true) => loopWith pid next m.budget m.settle
        | (m, false) => m.settle
      | none => loopWith pid next m.budget (m.setProc p)

/-- An instruction of a run that may not suspend: suspending is the fault
\x60cannotSuspend\x60, raised by the instruction that suspends. -/
def strictStep (pid : Nat) (m : Machine) : Machine × Except Fault Outcome :=
  match m.step pid with
  | (m', .ok (.suspend _)) => (m', .error .cannotSuspend)
  | r => r

def stepsOf (pid : Nat) (temporary : Bool) : Machine → Machine × Except Fault Outcome :=
  if temporary then strictStep pid else (·.step pid)

theorem runLoopWith (temporary : Bool) : ∀ (fuel : Nat) (m : Machine),
    runLoop pid temporary fuel m = loopWith pid (stepsOf pid temporary) fuel m := by
  intro fuel
  induction fuel with
  | zero =>
    intro m
    rcases found : m.proc? pid with _ | p <;> rw [runLoop.eq_def, loopWith.eq_def, found]
  | succ fuel ih =>
    intro m
    rw [runLoop.eq_def, loopWith.eq_def]
    rcases m.proc? pid with _ | p
    · rfl
    · dsimp only
      split
      · rfl
      · rcases h : ({ m.observe pid with budget := fuel } : Machine).step pid with
          ⟨m', e | _ | _ | _ | _⟩
        · -- a fault is raised alike in both, and what `raise` answers decides the rest alike
          cases temporary <;> simp [h, stepsOf, strictStep] <;>
            rcases m'.raise pid e with ⟨m'', _ | _⟩ <;> simp [ih, stepsOf]
        · cases temporary <;> simp [h, stepsOf, strictStep, ih]
        · -- suspending stops an ordinary run and raises `cannotSuspend` in a temporary one
          cases temporary
          · simp [h, stepsOf]
          · simp [h, stepsOf, strictStep]
            rcases m'.raise pid .cannotSuspend with ⟨m'', _ | _⟩ <;> simp [ih, stepsOf]
        · cases temporary <;> simp [h, stepsOf, strictStep, ih]
        · cases temporary <;> simp [h, stepsOf, strictStep]

theorem executeWith (m : Machine) (temporary : Bool) :
    m.execute pid temporary = runWith pid (stepsOf pid temporary) m := by
  unfold execute runWith
  rcases m.proc? pid with _ | p
  · rfl
  · dsimp only
    split
    · rfl
    · rcases p.pending with _ | fault
      · exact runLoopWith temporary _ _
      · dsimp only
        -- the fault is raised the same way in both; only the loop after it differs
        generalize ({ p with generation := p.generation + 1, status := .running,
                             pending := none } : Process) = q
        rcases (m.setProc q).raise pid fault with ⟨m', _ | _⟩
        · rfl
        · exact runLoopWith temporary _ _

/-! Pausing at \x60suspend\x60 or \x60stop\x60. -/

variable {f : Frame} {k : Control}

theorem stepPauses (found : m.proc? pid = some p) (top : p.frames.back? = some f)
    (pausing : (m.codeOrEmpty f.code).instr? f.pc = some (.control k))
    (pause : k = .suspend ∨ k = .stop) :
    m.step pid = (m.setProc (p.modifyTop fun f => { f with pc := f.pc + 1 }),
      .ok (.suspend (k == .suspend))) := by
  rw [stepRun found top pausing]
  rcases pause with rfl | rfl <;> rfl

theorem settlePaused (found : m.proc? pid = some p) (settled : m.settle = m) (g : Frame → Frame)
    (locals : ∀ f, (g f).locals = f.locals) : (m.setProc (p.modifyTop g)).settle = m.setProc (p.modifyTop g) := by
  have own : p.id = pid := procIdOf found
  rw [setProcOf found (·.modifyTop g) ((modifyTopId p g).trans own),
    settleModifyProc _ _ fun a => modifyTopRefs a locals, settled]

theorem setProcModifyCode (m : Machine) (q : Process) (id : CodeId) (g : Code → Code) :
    (m.modifyCode id g).setProc q = (m.setProc q).modifyCode id g := by
  simp only [setProc, modifyProcFirst, modifyCode]

theorem stepNop (found : m.proc? pid = some p) (top : p.frames.back? = some f)
    (pausing : (m.codeOrEmpty f.code).instr? f.pc = some (.control k))
    (pause : k = .suspend ∨ k = .stop) :
    (m.modifyCode f.code fun c => (c.patch? f.pc .nop).getD c).step pid =
      ((m.step pid).1.modifyCode f.code (fun c => (c.patch? f.pc .nop).getD c), .ok .continue) := by
  obtain ⟨c, stored⟩ : ∃ c, m.code? f.code = some c := by
    cases h : m.code? f.code with
    | none => simp [codeOrEmpty, h, Code.empty, Code.instr?] at pausing
    | some c => exact ⟨c, rfl⟩
  have inside := instrInside (by simpa [codeOrEmpty, stored] using pausing)
  have patched : (m.modifyCode f.code fun c => (c.patch? f.pc .nop).getD c).codeOrEmpty f.code =
      { c with instrs := c.instrs.setIfInBounds f.pc .nop } := by
    simp only [codeOrEmpty, code?, modifyCode, Array.getElem?_modify]
    simp only [code?] at stored
    simp [stored, Code.patch?, show f.pc < c.instrs.size from inside]
  have nop : ({ c with instrs := c.instrs.setIfInBounds f.pc .nop } : Code).instr? f.pc = some .nop := by
    simp [Code.instr?, show f.pc < c.instrs.size from inside]
  have found' : (m.modifyCode f.code fun c => (c.patch? f.pc .nop).getD c).proc? pid = some p :=
    (procOfProcs rfl pid).trans found
  rw [stepPauses found top pausing pause, stepRun found' top (patched ▸ nop), patched,
    setProcModifyCode]
  rfl

/-- What a pause at control instruction \x60k\x60 of frame \x60f\x60, the next one process
\x60pid\x60 runs in \x60M\x60, comes to. -/
structure PauseTransparent (pid : Nat) (M : Machine) (f : Frame) (k : Control)
    (message : String) : Prop where
  -- the run stops, waiting at \x60suspend\x60 and suspended at \x60stop\x60
  stops : ((afterStep pid false M.budget (M.step pid)).proc? pid).map Process.status =
    some (if k = .suspend then .waiting else .suspended)
  -- a \x60nop\x60 in its place takes the same step, and completes
  asNop : (M.modifyCode f.code fun c => (c.patch? f.pc .nop).getD c).step pid =
    ((M.step pid).1.modifyCode f.code (fun c => (c.patch? f.pc .nop).getD c), .ok .continue)
  -- run again, the process goes on as the loop goes on after that step completes
  resumes : (afterStep pid false M.budget (M.step pid)).run pid =
    (afterStep pid false M.budget ((M.step pid).1, .ok .continue)).shift pid
  -- continued with a failure, it raises the failure where it stopped
  fails : k = .suspend →
    ((afterStep pid false M.budget (M.step pid)).continueWithFailure pid message).1.run pid =
      (afterStep pid false M.budget ((M.step pid).1.settle, .error (.userError message))).shift pid
  -- and from a settled engine, as the loop does after that step fails
  failsSettled : k = .suspend → M.settle = M →
    ((afterStep pid false M.budget (M.step pid)).continueWithFailure pid message).1.run pid =
      (afterStep pid false M.budget ((M.step pid).1, .error (.userError message))).shift pid
  -- a temporary run is a run whose suspensions are faults
  strict : ∀ m : Machine, (m.runTemporary pid).1 = runWith pid (strictStep pid) m ∧
    m.run pid = runWith pid (·.step pid) m

theorem pauseTransparent (found : m.proc? pid = some p) (running : p.status = .running)
    (clear : p.pending = none) (dark : Dark pid m) (top : p.frames.back? = some f)
    (pausing : (m.codeOrEmpty f.code).instr? f.pc = some (.control k))
    (pause : k = .suspend ∨ k = .stop) (message : String) :
    PauseTransparent pid m f k message := by
  have stepped := stepPauses found top pausing pause
  have own : p.id = pid := procIdOf found
  -- after the pause the process is as it was, one instruction on
  have moved := procSetFound (q := p.modifyTop fun f => { f with pc := f.pc + 1 }) found
    ((modifyTopId p _).trans own)
  have running' : (p.modifyTop fun f => { f with pc := f.pc + 1 }).status = .running :=
    (modifyTopStatus p _).trans running
  have clear' : (p.modifyTop fun f => { f with pc := f.pc + 1 }).pending = none :=
    (modifyTopPending p _).trans clear
  have dark' := dark.setFound found (modifyTopGeneration p fun f => { f with pc := f.pc + 1 })
  have budget := setProcBudget m (p.modifyTop fun f => { f with pc := f.pc + 1 })
  have paused : (if (k == .suspend) = true then Status.waiting else .suspended) = .waiting ∨
      (if (k == .suspend) = true then Status.waiting else .suspended) = .suspended := by
    split
    · exact .inl rfl
    · exact .inr rfl
  refine ⟨?_, stepNop found top pausing pause, ?_, fun suspends => ?_, fun suspends settled => ?_,
    fun m => ⟨?_, ?_⟩⟩
  · rw [stepped]
    show (((m.setProc _).modifyProc pid fun q => { q with status := _ }).settle.proc? pid).map
      Process.status = _
    rw [stoppedFound moved]
    rcases pause with rfl | rfl <;> rfl
  · rw [stepped, ← budget]
    exact runStopped moved running' clear' dark' paused
  · subst suspends
    rw [stepped, ← budget]
    exact runFailing moved running' clear' dark' message
  · subst suspends
    have resumed := runFailing moved running' clear' dark' message
    rw [settlePaused found settled (fun f => { f with pc := f.pc + 1 }) fun _ => rfl] at resumed
    rw [stepped, ← budget]
    exact resumed
  · exact executeWith m true
  · exact executeWith m false

theorem suspendFirstTransparent :
    ∃ (M : Machine) (p : Process) (f : Frame), M.proc? 1 = some p ∧ p.status = .running ∧
      p.pending = none ∧ Dark 1 M ∧ p.frames.back? = some f ∧
      (M.codeOrEmpty f.code).instr? f.pc = some (.control .suspend) ∧
      PauseTransparent 1 M f .suspend "interrupted" :=
  let f : Frame :=
    { code := ⟨0⟩, locals := #[], index := 0, serial := 0, contextSp := 0, contextTos := 0,
      handlerSp := 0, valueSp := 0, wantResult := false }
  let p : Process := { id := 1, name := "p", status := .running, frames := #[f] }
  let M : Machine := { codes := #[{ instrs := #[.control .suspend] }], procs := #[p] }
  have dark : Dark 1 M := fun _ _ v mem _ => by simp [M] at mem
  ⟨M, p, f, rfl, rfl, rfl, dark, rfl, rfl,
    pauseTransparent rfl rfl rfl dark rfl rfl (.inl rfl) "interrupted"⟩

end Machine

end ScriptEngine
