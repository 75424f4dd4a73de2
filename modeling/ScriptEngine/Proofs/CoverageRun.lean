import Mathlib.Data.List.Basic
import ScriptEngine.Proofs.CoverageRecord
/-!
A run as the coverage recorder sees it. The run loop shows the recorder the process before
each instruction, the return past a unit's last instruction included; `shown` lists the
engines it shows, in order, and the recorder after the run is the recorder before it fed
those engines one after another. Nothing else in a run writes the recorder, and what the
recorder reads of a unit (its file, line map and length) stays as it was: entering a unit
may relocate it, which changes its instructions only.
-/
namespace ScriptEngine

namespace Code

/-- What the coverage recorder reads of a unit: its file, its line map and its length. -/
def recorded (c : Code) : String × Array (Nat × Nat) × Nat := (c.file, c.lines, c.size)

@[simp] theorem recordedRelocate (c : Code) : c.relocate.recorded = c.recorded := by
  simp [recorded, relocate, size]

end Code

namespace Coverage

/-- Two readings of the units that agree on what the recorder reads of each. -/
def SameRecorded (codes codes' : CodeId → Option Code) : Prop :=
  ∀ id, (codes id).map Code.recorded = (codes' id).map Code.recorded

variable {codes codes' : CodeId → Option Code} {cov : Coverage} {id : CodeId} {c : Code}

theorem SameRecorded.symm (same : SameRecorded codes codes') : SameRecorded codes' codes :=
  fun id => (same id).symm

theorem SameRecorded.trans {codes'' : CodeId → Option Code} (same : SameRecorded codes codes')
    (same' : SameRecorded codes' codes'') : SameRecorded codes codes'' :=
  fun id => (same id).trans (same' id)

theorem SameRecorded.found (same : SameRecorded codes codes') (found : codes id = some c) :
    ∃ c', codes' id = some c' ∧ c'.file = c.file ∧ c'.lines = c.lines ∧ c'.size = c.size := by
  have agree := same id
  rw [found] at agree
  cases found' : codes' id with
  | none => rw [found'] at agree; cases agree
  | some c' =>
    rw [found', Option.map_some, Option.map_some, Option.some.injEq] at agree
    simp only [Code.recorded, Prod.mk.injEq] at agree
    exact ⟨c', rfl, agree.1.symm, agree.2.1.symm, agree.2.2.symm⟩

theorem Sound.congr (sound : Sound codes cov) (same : SameRecorded codes codes') : Sound codes' cov where
  slotted id name i slot := by
    obtain ⟨c, found, file, named, inside⟩ := sound.slotted id name i slot
    obtain ⟨c', found', file', -, -⟩ := same.found found
    exact ⟨c', found', file'.trans file, named, inside⟩
  distinct := sound.distinct
  filed id c' registered found' named := by
    obtain ⟨c, found, file, -, -⟩ := same.symm.found found'
    rw [← file]
    exact sound.filed id c registered found (file ▸ named)
  listed id c' registered found' named p l mem := by
    obtain ⟨c, found, file, lines, -⟩ := same.symm.found found'
    rw [← file]
    exact sound.listed id c registered found (file ▸ named) p l (lines ▸ mem)

section Transport

variable {x : CodeId} {pc l : Nat}

theorem SameRecorded.fileOfImp (same : SameRecorded codes codes') {P : String → Prop} :
    (∃ c, codes id = some c ∧ P c.file) → ∃ c, codes' id = some c ∧ P c.file := by
  rintro ⟨c, found, holds⟩
  obtain ⟨c', found', file, -, -⟩ := same.found found
  exact ⟨c', found', file ▸ holds⟩

theorem SameRecorded.fileOf (same : SameRecorded codes codes') (P : String → Prop) :
    (∃ c, codes id = some c ∧ P c.file) ↔ ∃ c, codes' id = some c ∧ P c.file :=
  ⟨same.fileOfImp, same.symm.fileOfImp⟩

theorem SameRecorded.lineAtImp (same : SameRecorded codes codes') :
    lineAt codes x pc l → lineAt codes' x pc l := by
  rintro ⟨c, found, inside, line⟩
  obtain ⟨c', found', -, lines, size⟩ := same.found found
  refine ⟨c', found', size ▸ inside, ?_⟩
  -- the line of an instruction is read off the line map alone
  rw [Code.lineFor?, lines]
  exact line

theorem SameRecorded.lineAt (same : SameRecorded codes codes') :
    lineAt codes x pc l ↔ lineAt codes' x pc l :=
  ⟨same.lineAtImp, same.symm.lineAtImp⟩

end Transport

end Coverage

namespace Machine

open Coverage

variable {m m' : Machine} {pid : Nat} {temporary : Bool}

def recordedUnits (m : Machine) : Array (String × Array (Nat × Nat) × Nat) := m.codes.map Code.recorded

theorem sameRecordedOf (same : m'.recordedUnits = m.recordedUnits) : SameRecorded m.code? m'.code? := by
  intro id
  have at_id := congrArg (·[id.index]?) same
  simp only [recordedUnits, Array.getElem?_map] at at_id
  exact at_id.symm

theorem recordedUntouched : Untouched recordedUnits where
  modifyProc m pid f := by unfold modifyProc; split <;> rfl
  relocate m code := by
    apply Array.ext_getElem?
    intro i
    simp only [recordedUnits, modifyCode, Array.getElem?_map, Array.getElem?_modify]
    split
    · simp [Function.comp_def]
    · rfl
  serial _ _ := rfl
  lock _ _ _ := rfl
  context _ _ _ := rfl

theorem coverageUntouched : Untouched Machine.coverage where
  modifyProc m pid f := by unfold modifyProc; split <;> rfl
  relocate _ _ := rfl
  serial _ _ := rfl
  lock _ _ _ := rfl
  context _ _ _ := rfl

@[simp] theorem settleCodes (m : Machine) : m.settle.codes = m.codes := by
  unfold settle; split <;> rfl

@[simp] theorem settleCoverage (m : Machine) : m.settle.coverage = m.coverage := by
  unfold settle; split <;> rfl

@[simp] theorem observeCodes (m : Machine) (pid : Nat) : (m.observe pid).codes = m.codes := by
  unfold observe; split <;> (try split) <;> rfl

/-- The unit and next instruction of process `pid`'s innermost frame. -/
def position (m : Machine) (pid : Nat) : Option (CodeId × Nat) :=
  (m.proc? pid).bind fun p => p.frames.back?.map fun f => (f.code, f.pc)

/-- What the recorder makes of being shown process `pid` of `m`. -/
def showTo (m : Machine) (pid : Nat) (cov : Coverage) : Coverage :=
  match m.position pid with
  | some (x, pc) => cov.observe m.code? m.codes.size x pc
  | none => cov

theorem observeCoverage (m : Machine) (pid : Nat) : (m.observe pid).coverage = m.coverage.map (m.showTo pid) := by
  unfold observe showTo position
  cases recording : m.coverage with
  | none => simp [recording]
  | some cov =>
    cases found : m.proc? pid with
    | none => simp [recording]
    | some p =>
      cases top : p.frames.back? with
      | none => simp [recording, top]
      | some f => simp [top]

/-- The engines the run loop shows the recorder, one before each instruction, in order. -/
def shownByLoop (pid : Nat) (temporary : Bool) (fuel : Nat) (m : Machine) : List Machine :=
  match m.proc? pid with
  | none => []
  | some p =>
    if p.frames.isEmpty then []
    else
      match fuel with
      | 0 => []
      | fuel + 1 =>
        m :: match ({ m.observe pid with budget := fuel } : Machine).step pid with
          | (m, .ok .continue) => shownByLoop pid temporary fuel m.settle
          | (m, .ok (.ret v)) => shownByLoop pid temporary fuel (m.leaveFrame pid v).settle
          | (m, .ok (.suspend _)) =>
            if temporary then
              match m.raise pid .cannotSuspend with
              | (m, true) => shownByLoop pid temporary fuel m.settle
              | (_, false) => []
            else []
          | (_, .ok .terminate) => []
          | (m, .error e) =>
            match m.raise pid e with
            | (m, true) => shownByLoop pid temporary fuel m.settle
            | (_, false) => []

/-- The engines a run of process `pid` shows the recorder, in order. -/
def shown (m : Machine) (pid : Nat) (temporary : Bool) : List Machine :=
  match m.proc? pid with
  | none => []
  | some p =>
    if p.status == .frozen || p.status.isTerminal then []
    else
      let p := { p with generation := p.generation + 1, status := .running }
      match p.pending with
      | some fault =>
        let m := m.setProc { p with pending := none }
        match m.raise pid fault with
        | (m, true) => shownByLoop pid temporary m.budget m.settle
        | (_, false) => []
      | none => shownByLoop pid temporary m.budget (m.setProc p)

def showAll (pid : Nat) (ms : List Machine) (cov : Coverage) : Coverage :=
  ms.foldl (fun cov m => m.showTo pid cov) cov

@[simp] theorem showAllNil : showAll pid [] = id := rfl

@[simp] theorem showAllCons (m : Machine) (ms : List Machine) (cov : Coverage) :
    showAll pid (m :: ms) cov = showAll pid ms (m.showTo pid cov) := rfl

theorem observedStepCoverage {m m' : Machine} {pid fuel : Nat} {r : Except Fault Outcome}
    (step : ({ m.observe pid with budget := fuel } : Machine).step pid = (m', r)) :
    m'.coverage = m.coverage.map (m.showTo pid) := by
  have kept := coverageUntouched.step ({ m.observe pid with budget := fuel } : Machine) pid
  rw [step] at kept
  exact kept.trans (observeCoverage m pid)

theorem shownOn {m m' : Machine} {rest : List Machine} {cov : Option Coverage}
    (then_ : cov = m'.coverage.map (showAll pid rest)) (moved : m'.coverage = m.coverage.map (m.showTo pid)) :
    cov = m.coverage.map (showAll pid (m :: rest)) := by
  rw [then_, moved, Option.map_map]
  rfl

theorem shownLast {m m' : Machine} (moved : m'.coverage = m.coverage.map (m.showTo pid)) :
    m'.coverage = m.coverage.map (showAll pid [m]) :=
  moved

theorem runLoopShows (pid : Nat) (temporary : Bool) (fuel : Nat) (m : Machine) :
    (runLoop pid temporary fuel m).coverage =
      m.coverage.map (showAll pid (shownByLoop pid temporary fuel m)) := by
  -- one case per way an instruction ends; each shows the recorder `m` first
  fun_induction Machine.runLoop pid temporary fuel m with
  | case1 fuel m found =>
    rw [shownByLoop.eq_def, found]
    simp
  | case2 fuel m p found empty =>
    rw [shownByLoop.eq_def, found]
    simp [empty, coverageUntouched.finish]
  | case3 m p found framed =>
    rw [shownByLoop.eq_def, found]
    simp [framed]
  | case4 m p found framed fuel m₁ m₂ step ih =>
    rw [shownByLoop.eq_def, found]
    simp only [m₁] at step
    simp only [framed, step, Bool.false_eq_true, ite_false]
    exact shownOn ih (by rw [settleCoverage, observedStepCoverage step])
  | case5 m p found framed fuel m₁ m₂ v step ih =>
    rw [shownByLoop.eq_def, found]
    simp only [m₁] at step
    simp only [framed, step, Bool.false_eq_true, ite_false]
    exact shownOn ih (by rw [settleCoverage, coverageUntouched.leaveFrame, observedStepCoverage step])
  | case6 m p found framed fuel m₁ m₂ wait temp m₃ caught step ih =>
    subst temp
    rw [shownByLoop.eq_def, found]
    simp only [m₁] at step
    simp only [framed, step, caught, Bool.false_eq_true, ite_false, ite_true]
    exact shownOn ih (by rw [settleCoverage, coverageUntouched.raise caught, observedStepCoverage step])
  | case7 m p found framed fuel m₁ m₂ wait temp m₃ uncaught step =>
    subst temp
    rw [shownByLoop.eq_def, found]
    simp only [m₁] at step
    simp only [framed, step, uncaught, Bool.false_eq_true, ite_false, ite_true]
    exact shownLast (by rw [settleCoverage, coverageUntouched.raise uncaught, observedStepCoverage step])
  | case8 m p found framed fuel m₁ m₂ wait temp step =>
    rw [shownByLoop.eq_def, found]
    simp only [m₁] at step
    simp only [framed, step, temp, Bool.false_eq_true, ite_false]
    exact shownLast (by rw [settleCoverage, coverageUntouched.modifyProc, observedStepCoverage step])
  | case9 m p found framed fuel m₁ m₂ step =>
    rw [shownByLoop.eq_def, found]
    simp only [m₁] at step
    simp only [framed, step, Bool.false_eq_true, ite_false]
    exact shownLast (by rw [settleCoverage, coverageUntouched.finish, observedStepCoverage step])
  | case10 m p found framed fuel m₁ m₂ e m₃ caught step ih =>
    rw [shownByLoop.eq_def, found]
    simp only [m₁] at step
    simp only [framed, step, caught, Bool.false_eq_true, ite_false]
    exact shownOn ih (by rw [settleCoverage, coverageUntouched.raise caught, observedStepCoverage step])
  | case11 m p found framed fuel m₁ m₂ e m₃ uncaught step =>
    rw [shownByLoop.eq_def, found]
    simp only [m₁] at step
    simp only [framed, step, uncaught, Bool.false_eq_true, ite_false]
    exact shownLast (by rw [settleCoverage, coverageUntouched.raise uncaught, observedStepCoverage step])

theorem KeptByRun.shownByLoop {I : Machine → Prop} (keeps : KeptByRun I pid) (temporary : Bool)
    (fuel : Nat) (m : Machine) : I m → ∀ M ∈ shownByLoop pid temporary fuel m, I M := by
  -- the loop's own cases: the engine shown first is `m`, the rest are shown by the loop
  -- that goes on from what the instruction left
  have first : ∀ {m M : Machine} {rest : List Machine}, I m → (I m → ∀ M ∈ rest, I M) →
      M ∈ m :: rest → I M := by
    intro m M rest start later mem
    rcases List.mem_cons.mp mem with rfl | mem
    · exact start
    · exact later start M mem
  fun_induction Machine.runLoop pid temporary fuel m with
  | case1 fuel m found =>
    intro _ M mem
    rw [shownByLoop.eq_def, found] at mem
    cases mem
  | case2 fuel m p found empty =>
    intro _ M mem
    rw [shownByLoop.eq_def, found] at mem
    simp [empty] at mem
  | case3 m p found framed =>
    intro _ M mem
    rw [shownByLoop.eq_def, found] at mem
    simp [framed] at mem
  | case4 m p found framed fuel m₁ m₂ step ih =>
    intro start M mem
    have moved := keeps.stepped (keeps.observed m fuel start) step
    rw [shownByLoop.eq_def, found] at mem
    simp only [m₁] at step
    simp only [framed, step, Bool.false_eq_true, ite_false] at mem
    exact first start (fun _ => ih (keeps.settled _ moved)) mem
  | case5 m p found framed fuel m₁ m₂ v step ih =>
    intro start M mem
    have moved := keeps.stepped (keeps.observed m fuel start) step
    rw [shownByLoop.eq_def, found] at mem
    simp only [m₁] at step
    simp only [framed, step, Bool.false_eq_true, ite_false] at mem
    exact first start (fun _ => ih (keeps.settled _ (keeps.left _ v moved))) mem
  | case6 m p found framed fuel m₁ m₂ wait temp m₃ caught step ih =>
    subst temp
    intro start M mem
    have moved := keeps.stepped (keeps.observed m fuel start) step
    rw [shownByLoop.eq_def, found] at mem
    simp only [m₁] at step
    simp only [framed, step, caught, Bool.false_eq_true, ite_false, ite_true] at mem
    exact first start (fun _ => ih (keeps.settled _ (keeps.raised moved caught))) mem
  | case7 m p found framed fuel m₁ m₂ wait temp m₃ uncaught step =>
    subst temp
    intro start M mem
    rw [shownByLoop.eq_def, found] at mem
    simp only [m₁] at step
    simp only [framed, step, uncaught, Bool.false_eq_true, ite_false, ite_true] at mem
    exact first start (fun _ _ none => by cases none) mem
  | case8 m p found framed fuel m₁ m₂ wait temp step =>
    intro start M mem
    rw [shownByLoop.eq_def, found] at mem
    simp only [m₁] at step
    simp only [framed, step, temp, Bool.false_eq_true, ite_false] at mem
    exact first start (fun _ _ none => by cases none) mem
  | case9 m p found framed fuel m₁ m₂ step =>
    intro start M mem
    rw [shownByLoop.eq_def, found] at mem
    simp only [m₁] at step
    simp only [framed, step, Bool.false_eq_true, ite_false] at mem
    exact first start (fun _ _ none => by cases none) mem
  | case10 m p found framed fuel m₁ m₂ e m₃ caught step ih =>
    intro start M mem
    have moved := keeps.stepped (keeps.observed m fuel start) step
    rw [shownByLoop.eq_def, found] at mem
    simp only [m₁] at step
    simp only [framed, step, caught, Bool.false_eq_true, ite_false] at mem
    exact first start (fun _ => ih (keeps.settled _ (keeps.raised moved caught))) mem
  | case11 m p found framed fuel m₁ m₂ e m₃ uncaught step =>
    intro start M mem
    rw [shownByLoop.eq_def, found] at mem
    simp only [m₁] at step
    simp only [framed, step, uncaught, Bool.false_eq_true, ite_false] at mem
    exact first start (fun _ _ none => by cases none) mem

theorem executeShows (m : Machine) (pid : Nat) (temporary : Bool) :
    (m.execute pid temporary).coverage = m.coverage.map (showAll pid (m.shown pid temporary)) := by
  cases found : m.proc? pid with
  | none => simp [execute, Machine.shown, found]
  | some p =>
    by_cases idle : (p.status == .frozen || p.status.isTerminal) = true
    · simp [execute, Machine.shown, found, idle]
    · simp only [execute, Machine.shown, found, idle, Bool.false_eq_true, if_false]
      cases pending : p.pending with
      | none => rw [runLoopShows, coverageUntouched.setProc]
      | some fault =>
        -- a pending fault is raised before the loop, and the loop runs only if it was caught
        dsimp only
        cases raised : (m.setProc
            { p with generation := p.generation + 1, status := .running, pending := none }).raise pid fault with
        | mk m' caught =>
          have kept : m'.coverage = m.coverage :=
            (coverageUntouched.raise raised).trans (coverageUntouched.setProc _ _)
          cases caught
          · simp [kept]
          · rw [runLoopShows, settleCoverage, kept]

theorem KeptByRun.shown {I : Machine → Prop} (keeps : KeptByRun I pid) (temporary : Bool)
    (started : ∀ p, m.proc? pid = some p → ∀ pending : Option Fault,
      I (m.setProc { p with generation := p.generation + 1, status := .running, pending := pending })) :
    ∀ M ∈ m.shown pid temporary, I M := by
  cases found : m.proc? pid with
  | none => simp [Machine.shown, found]
  | some p =>
    by_cases idle : (p.status == .frozen || p.status.isTerminal) = true
    · simp [Machine.shown, found, idle]
    · simp only [Machine.shown, found, idle, Bool.false_eq_true, if_false]
      cases pending : p.pending with
      | none => exact keeps.shownByLoop temporary _ _ (pending ▸ started p found none)
      | some fault =>
        dsimp only
        cases raised : (m.setProc
            { p with generation := p.generation + 1, status := .running, pending := none }).raise pid fault with
        | mk m' caught =>
          cases caught
          · simp
          · exact keeps.shownByLoop temporary _ _ (keeps.settled _ (keeps.raised (started p found none) raised))

theorem recordedKeptByRun (pid : Nat) (v : Array (String × Array (Nat × Nat) × Nat)) :
    KeptByRun (fun m => m.recordedUnits = v) pid :=
  recordedUntouched.keptByRun pid (fun m => by simp [recordedUnits])
    (fun m => by simp [recordedUnits]) (fun _ _ => rfl) (fun _ => rfl) v

theorem executeRecorded (m : Machine) (pid : Nat) (temporary : Bool) :
    (m.execute pid temporary).recordedUnits = m.recordedUnits :=
  (recordedKeptByRun pid m.recordedUnits).execute temporary
    (fun _ _ _ => recordedUntouched.setProc m _) rfl

theorem shownRecorded (m : Machine) (pid : Nat) (temporary : Bool) :
    ∀ M ∈ m.shown pid temporary, M.recordedUnits = m.recordedUnits :=
  (recordedKeptByRun pid m.recordedUnits).shown temporary
    (fun _ _ _ => recordedUntouched.setProc m _)

section Showing

/-! Feeding the recorder a list of engines whose units read as `codes` do, one engine after
another: each observation is read through `codes`, so the fold is one induction over the list
on the observation lemmas. -/

variable {codes : CodeId → Option Code} {cov : Coverage} {pid : Nat} {M : Machine} {ms : List Machine}

theorem showToSound (same : SameRecorded codes M.code?) (sound : Sound codes cov) :
    Sound codes (M.showTo pid cov) := by
  unfold showTo
  split
  · exact (observeSound (sound.congr same)).congr same.symm
  · exact sound

theorem showToRegistered (same : SameRecorded codes M.code?) (sound : Sound codes cov) {id : CodeId}
    (registered : cov.isRegistered id = true) : (M.showTo pid cov).isRegistered id = true := by
  unfold showTo
  split
  · exact observeRegistered (sound.congr same) registered
  · exact registered

theorem showToRegistersOwn (same : SameRecorded codes M.code?) (sound : Sound codes cov) {x : CodeId}
    {pc : Nat} (at_x : M.position pid = some (x, pc)) {c : Code} (found : codes x = some c) :
    (M.showTo pid cov).isRegistered x = true := by
  obtain ⟨c', found', -⟩ := same.found found
  unfold showTo
  rw [at_x]
  exact observeRegistersOwn (sound.congr same) found'

theorem showToFunctionHit (same : SameRecorded codes M.code?) (sound : Sound codes cov) (id : CodeId) :
    (M.showTo pid cov).FunctionHit id ↔ cov.FunctionHit id ∨
      (∃ c, codes id = some c ∧ c.file.isEmpty = false) ∧ ∃ pc, M.position pid = some (id, pc) := by
  unfold showTo
  split
  · rename_i x pc at_x
    rw [observeFunctionHit (sound.congr same), at_x]
    refine or_congr_right ⟨?_, ?_⟩
    · rintro ⟨rfl, named⟩
      exact ⟨(same.fileOf fun f => f.isEmpty = false).mpr named, pc, rfl⟩
    · rintro ⟨named, pc', shown⟩
      cases shown
      exact ⟨rfl, (same.fileOf fun f => f.isEmpty = false).mp named⟩
  · rename_i nowhere
    simp [nowhere]

theorem showToLineHit (same : SameRecorded codes M.code?) (sound : Sound codes cov) (name : String)
    (l : Nat) :
    (M.showTo pid cov).LineHit name l ↔ cov.LineHit name l ∨
      ∃ x pc, M.position pid = some (x, pc) ∧
        (∃ c, codes x = some c ∧ c.file = name ∧ c.file.isEmpty = false) ∧ lineAt codes x pc l := by
  unfold showTo
  split
  · rename_i x pc at_x
    rw [observeLineHit (sound.congr same), at_x]
    refine or_congr_right ⟨?_, ?_⟩
    · rintro ⟨named, hit⟩
      exact ⟨x, pc, rfl, (same.fileOf fun f => f = name ∧ f.isEmpty = false).mpr named, same.lineAt.mpr hit⟩
    · rintro ⟨x', pc', shown, named, hit⟩
      cases shown
      exact ⟨(same.fileOf fun f => f = name ∧ f.isEmpty = false).mp named, same.lineAt.mp hit⟩
  · rename_i nowhere
    simp [nowhere]

theorem showAllSound (same : ∀ M ∈ ms, SameRecorded codes M.code?) (sound : Sound codes cov) :
    Sound codes (showAll pid ms cov) := by
  induction ms generalizing cov with
  | nil => exact sound
  | cons M ms ih =>
    exact ih (fun M' mem => same M' (List.mem_cons_of_mem _ mem)) (showToSound (same M List.mem_cons_self) sound)

theorem showAllRegistered (same : ∀ M ∈ ms, SameRecorded codes M.code?) (sound : Sound codes cov)
    {id : CodeId} (registered : cov.isRegistered id = true) :
    (showAll pid ms cov).isRegistered id = true := by
  induction ms generalizing cov with
  | nil => exact registered
  | cons M ms ih =>
    have head := same M List.mem_cons_self
    exact ih (fun M' mem => same M' (List.mem_cons_of_mem _ mem)) (showToSound head sound)
      (showToRegistered head sound registered)

theorem showAllRegistersShown (same : ∀ M ∈ ms, SameRecorded codes M.code?) (sound : Sound codes cov)
    {x : CodeId} {pc : Nat} (shown : ∃ M ∈ ms, M.position pid = some (x, pc)) {c : Code}
    (found : codes x = some c) : (showAll pid ms cov).isRegistered x = true := by
  induction ms generalizing cov with
  | nil => simp at shown
  | cons M ms ih =>
    have head := same M List.mem_cons_self
    have tail : ∀ M' ∈ ms, SameRecorded codes M'.code? := fun M' mem => same M' (List.mem_cons_of_mem _ mem)
    rw [showAllCons]
    rcases (List.exists_mem_cons_iff _ _ _).mp shown with at_x | later
    · exact showAllRegistered tail (showToSound head sound) (showToRegistersOwn head sound at_x found)
    · exact ih tail (showToSound head sound) later

theorem showAllFunctionHit (same : ∀ M ∈ ms, SameRecorded codes M.code?) (sound : Sound codes cov)
    (id : CodeId) :
    (showAll pid ms cov).FunctionHit id ↔ cov.FunctionHit id ∨
      (∃ c, codes id = some c ∧ c.file.isEmpty = false) ∧ ∃ M ∈ ms, ∃ pc, M.position pid = some (id, pc) := by
  induction ms generalizing cov with
  | nil => simp
  | cons M ms ih =>
    have head := same M List.mem_cons_self
    rw [showAllCons, ih (fun M' mem => same M' (List.mem_cons_of_mem _ mem)) (showToSound head sound),
      showToFunctionHit head sound, List.exists_mem_cons_iff, and_or_left, or_assoc]

theorem showAllLineHit (same : ∀ M ∈ ms, SameRecorded codes M.code?) (sound : Sound codes cov)
    (name : String) (l : Nat) :
    (showAll pid ms cov).LineHit name l ↔ cov.LineHit name l ∨
      ∃ M ∈ ms, ∃ x pc, M.position pid = some (x, pc) ∧
        (∃ c, codes x = some c ∧ c.file = name ∧ c.file.isEmpty = false) ∧ lineAt codes x pc l := by
  induction ms generalizing cov with
  | nil => simp
  | cons M ms ih =>
    have head := same M List.mem_cons_self
    rw [showAllCons, ih (fun M' mem => same M' (List.mem_cons_of_mem _ mem)) (showToSound head sound),
      showToLineHit head sound, List.exists_mem_cons_iff, or_assoc]

/-- What a run of process `pid` that showed the recorder the engines `shown` did to it, over
units that read as `codes`: the recorder stays sound, so every line of every registered unit with
a file is listed; what was registered stays registered and every unit the run stood in is
registered; and a function entry or a line is hit exactly when it was hit before or the run
stood at it, a unit's entry even when it stood past its last instruction. -/
structure RunRecorded (pid : Nat) (codes : CodeId → Option Code) (shown : List Machine)
    (before after : Coverage) : Prop where
  sound : Sound codes after
  registered : ∀ id, before.isRegistered id = true → after.isRegistered id = true
  reached : ∀ M ∈ shown, ∀ x pc, M.position pid = some (x, pc) → ∀ c, codes x = some c →
    after.isRegistered x = true
  functions : ∀ id, after.FunctionHit id ↔ before.FunctionHit id ∨
    (∃ c, codes id = some c ∧ c.file.isEmpty = false) ∧ ∃ M ∈ shown, ∃ pc, M.position pid = some (id, pc)
  lines : ∀ name l, after.LineHit name l ↔ before.LineHit name l ∨
    ∃ M ∈ shown, ∃ x pc, M.position pid = some (x, pc) ∧
      (∃ c, codes x = some c ∧ c.file = name ∧ c.file.isEmpty = false) ∧ lineAt codes x pc l

theorem showAllRecorded (same : ∀ M ∈ ms, SameRecorded codes M.code?) (sound : Sound codes cov) :
    RunRecorded pid codes ms cov (showAll pid ms cov) where
  sound := showAllSound same sound
  registered _ := showAllRegistered same sound
  reached M mem _ _ at_x _ found := showAllRegistersShown same sound ⟨M, mem, at_x⟩ found
  functions := showAllFunctionHit same sound
  lines := showAllLineHit same sound


end Showing

/-- A run started with a recorder that is sound for the engine's units leaves it recording
the run, as `RunRecorded` says, over the units as they are after the run. -/
theorem runRecordsCoverage (m : Machine) (pid : Nat) (temporary : Bool) {cov : Coverage}
    (recording : m.coverage = some cov) (sound : Sound m.code? cov) :
    ∃ cov', (m.execute pid temporary).coverage = some cov' ∧
      RunRecorded pid (m.execute pid temporary).code? (m.shown pid temporary) cov cov' := by
  -- a run keeps what the recorder reads of every unit, in every engine it shows and at its end
  have kept : SameRecorded m.code? (m.execute pid temporary).code? :=
    sameRecordedOf (executeRecorded m pid temporary)
  have same : ∀ M ∈ m.shown pid temporary, SameRecorded (m.execute pid temporary).code? M.code? :=
    fun M mem => kept.symm.trans (sameRecordedOf (shownRecorded m pid temporary M mem))
  refine ⟨_, ?_, showAllRecorded same (sound.congr kept)⟩
  rw [executeShows, recording]
  rfl

theorem unitRunRecorded :
    let unit : Code := { instrs := #[.nop], file := "a.q", lines := #[(0, 1)] }
    let m := ((Exec.pushFrame 1 ⟨0⟩ false).run
      (({ codes := #[unit], coverage := some {} } : Machine).create "main").1).2
    m.coverage = some {} ∧ ∃ cov', (m.execute 1 false).coverage = some cov' ∧
      RunRecorded 1 (m.execute 1 false).code? (m.shown 1 false) {} cov' := by
  intro unit m
  have recording : m.coverage = some {} := by decide +kernel
  exact ⟨recording, runRecordsCoverage m 1 false recording (emptySound _)⟩

/-- The recorder lists a unit's lines when it registers the unit: a unit edited after that
(here given a second line) is run, stays registered, and its new line is never listed. -/
theorem editedUnitLineUnlisted :
    let old : Code := { instrs := #[.nop], file := "a.q", lines := #[(0, 1)] }
    let unit : Code := { instrs := #[.nop, .ret 0, .nop], file := "a.q", lines := #[(0, 1), (2, 2)] }
    let m := ((Exec.pushFrame 1 ⟨0⟩ false).run
      (({ codes := #[unit], coverage := some (({} : Coverage).add (fun id => #[old][id.index]?) 1 ⟨0⟩) } :
        Machine).create "main").1).2
    ∃ cov c, (m.execute 1 false).coverage = some cov ∧ (m.execute 1 false).code? ⟨0⟩ = some c ∧
      cov.isRegistered ⟨0⟩ = true ∧ c.file = "a.q" ∧ (2, 2) ∈ c.lines ∧ ¬cov.LineListed "a.q" 2 := by
  intro old unit m
  have recorded : ((m.execute 1 false).coverage.map fun cov =>
      (cov.isRegistered ⟨0⟩, (cov.file "a.q").lines.any (·.1 == 2))) = some (true, false) := by
    decide +kernel
  have kept : ((m.execute 1 false).code? ⟨0⟩).map (fun c => (c.file, c.lines)) =
      some ("a.q", #[(0, 1), (2, 2)]) := by
    decide +kernel
  obtain ⟨cov, after, values⟩ := Option.map_eq_some_iff.mp recorded
  obtain ⟨c, found, tables⟩ := Option.map_eq_some_iff.mp kept
  simp only [Prod.mk.injEq] at values tables
  refine ⟨cov, c, after, found, values.1, tables.1, by simp [tables.2], ?_⟩
  rintro ⟨b, listed⟩
  have seen : (cov.file "a.q").lines.any (·.1 == 2) = true := Array.any_eq_true'.mpr ⟨(2, b), listed, rfl⟩
  rw [values.2] at seen
  cases seen

end Machine

end ScriptEngine
