import ScriptEngine.Proofs.Noninterference
/-!
What compaction's rewrites mean to a running process. Compaction threads every jump through
the chain of unconditional, non-popping jumps its target starts, and deletes the
instructions it calls redundant: `nop` and non-popping jumps to the very next instruction.
A plain jump moves the frame to its target and does nothing else, so a chain of them is
walked by instructions that change the frame's `pc` only. A redundant instruction moves the
frame to the next instruction and does nothing else, with one exception: a conditional jump
reads the top value first, and fails with a stack underflow when the frame's part of the
value stack is empty. Deleting such a jump therefore changes what the code does.
-/
namespace ScriptEngine

/-- A jump that reads the top value to decide whether to jump. -/
def Instr.peeks : Instr → Bool
  | .jump j => j.condition != .always && j.condition != .handler
  | _ => false

namespace Exec

theorem runPost {α : Type} {x : Exec α} {m : Machine} {t : Except Fault α × Machine} :
    Post x m (fun a m' => (.ok a, m') = t) (fun e m' => (.error e, m') = t) ↔ x.run m = t := by
  unfold Post
  split <;> rename_i h <;> rw [h]

end Exec

namespace Process

theorem modifyTopTwice (p : Process) (g h : Frame → Frame) :
    (p.modifyTop g).modifyTop h = p.modifyTop (fun f => h (g f)) := by
  unfold modifyTop
  cases hb : p.frames.back? with
  | none => simp only [hb]
  | some f => simp

theorem popPushBack {α : Type} {xs : Array α} {x : α} (h : xs.back? = some x) :
    xs.pop.push x = xs := by
  obtain ⟨at_, pos⟩ := backEq h
  apply Array.ext_getElem?
  intro i
  rw [Array.getElem?_push, Array.size_pop]
  by_cases last : i = xs.size - 1
  · rw [if_pos last, last, at_]
  · rw [if_neg last, Array.getElem?_pop]
    by_cases below : i < xs.size - 1
    · rw [if_pos below]
    · rw [if_neg below, Array.getElem?_eq_none (by omega)]

theorem modifyTopFixed {p : Process} {g : Frame → Frame} {f : Frame}
    (top : p.frames.back? = some f) (fixed : g f = f) : p.modifyTop g = p := by
  unfold modifyTop
  rw [top]
  dsimp only
  rw [fixed, popPushBack top]

end Process

namespace Machine

open Exec

theorem setProcTwice (m : Machine) {q q' : Process} (same : q'.id = q.id) :
    (m.setProc q).setProc q' = m.setProc q' := by
  simp only [setProc, same, modifyProcFirst]
  rw [@modifyFirstTwice q.id (fun _ => q') (fun _ => q) (fun _ _ => rfl)]

variable {m : Machine} {pid : Nat} {p : Process} {f : Frame} {op : Instr}

theorem instrInside {c : Code} {pc : Nat} (at_ : c.instr? pc = some op) : pc < c.size := by
  unfold Code.instr? at at_
  exact (Array.getElem?_eq_some_iff.mp at_).1

theorem redundantStep (found : m.proc? pid = some p) (top : p.frames.back? = some f)
    (at_ : (m.codeOrEmpty f.code).instr? f.pc = some op) (redundant : Code.isRedundant f.pc op) :
    m.step pid = (m.setProc (p.modifyTop fun f => { f with pc := f.pc + 1 }),
      if op.peeks && decide (p.values.size ≤ p.valueFloor) then .error .stackUnderflow
      else .ok .continue) := by
  rw [stepRun found top at_, ← runPost]
  generalize hq : (p.modifyTop fun f => { f with pc := f.pc + 1 }) = q
  have moved : (m.setProc q).proc? pid = some q :=
    procSetFound found (hq ▸ (Process.modifyTopId p _).trans (procIdOf found))
  have top' : q.frames.back? = some { f with pc := f.pc + 1 } := by
    rw [← hq, Process.modifyTopBack, top]
    rfl
  have stay : (m.setProc q).setProc (q.modifyTop fun g => { g with pc := f.pc + 1 }) =
      m.setProc q := by
    rw [Process.modifyTopFixed top' rfl, setProcTwice _ rfl]
  have peeked : q.peekValue = p.peekValue := by
    rw [← hq]
    unfold Process.peekValue
    have keeps : ∀ g : Frame, g.Retains { g with pc := g.pc + 1 } := fun _ => rfl
    rw [Process.valueFloorRetop keeps, Process.modifyTopValues]
  cases op with
  | nop => simp [instr, Instr.peeks]
  | jump j =>
    simp only [Code.isRedundant, Bool.and_eq_true, Bool.not_eq_true', bne_iff_ne, ne_eq,
      beq_iff_eq] at redundant
    obtain ⟨⟨⟨noPop, plain⟩, noHandler⟩, next⟩ := redundant
    have inside : ¬f.pc + 1 > (m.codeOrEmpty f.code).size := by
      have := instrInside at_
      omega
    rcases j with ⟨condition, pop, symbolic, target⟩
    dsimp only at noPop plain next noHandler
    subst noPop plain next
    by_cases empty : p.values.size ≤ p.valueFloor
    · have fails : p.peekValue = .error .stackUnderflow := by
        unfold Process.peekValue
        rw [if_pos empty]
      cases condition <;>
        simp only [instr, jump, modifyTop, peek, postBind, postIte, postThrow, postPure, postProc,
          moved, postSetProc, postLiftFault, peeked, fails, stay, inside] <;> simp_all [Instr.peeks]
    · obtain ⟨v, hv⟩ : ∃ v, p.peekValue = .ok v := by
        unfold Process.peekValue
        rw [if_neg empty]
        obtain ⟨v, hv⟩ := @Process.backSome _ p.values (by rintro h; simp [h] at empty)
        exact ⟨v, by rw [hv]⟩
      cases condition <;>
        simp only [instr, jump, modifyTop, peek, postBind, postIte, postThrow, postPure, postProc,
          moved, postSetProc, postLiftFault, peeked, hv, stay, inside] <;> simp_all [Instr.peeks]
  | _ => simp [Code.isRedundant] at redundant

theorem plainJumpStep {t : Nat} (found : m.proc? pid = some p) (top : p.frames.back? = some f)
    (at_ : (m.codeOrEmpty f.code).instr? f.pc = some (.jump ⟨.always, false, false, t⟩))
    (inside : t ≤ (m.codeOrEmpty f.code).size) :
    m.step pid = (m.setProc (p.modifyTop fun f => { f with pc := t }), .ok .continue) := by
  rw [stepRun found top at_, ← runPost]
  have moved : (m.setProc (p.modifyTop fun f => { f with pc := f.pc + 1 })).proc? pid =
      some (p.modifyTop fun f => { f with pc := f.pc + 1 }) :=
    procSetFound found ((Process.modifyTopId p _).trans (procIdOf found))
  have inside' : ¬t > (m.codeOrEmpty f.code).size := by omega
  have install : (JumpCondition.always == .handler) = false := rfl
  simp only [instr, jump, modifyTop, postBind, postIte, postPure, postProc, moved,
    postSetProc, inside', install, Bool.false_eq_true, if_false]
  rw [setProcTwice _ (by simp only [Process.modifyTopId]), Process.modifyTopTwice]
  simp

/-- Instructions of `pid` that each let the process continue lead from one state to the
other. -/
def Continues (pid : Nat) : Machine → Machine → Prop :=
  Relation.ReflTransGen fun a b => a.step pid = (b, .ok .continue)

theorem plainJumpTargetSome {op : Instr} {t : Nat} (h : Code.plainJumpTarget? op = some t) :
    op = .jump ⟨.always, false, false, t⟩ := by
  unfold Code.plainJumpTarget? at h
  split at h
  · cases h
    rfl
  · cases h

theorem chaseContinues (found : m.proc? pid = some p) (top : p.frames.back? = some f)
    (inside : ∀ i t, (m.codeOrEmpty f.code).instr? i = some (.jump ⟨.always, false, false, t⟩) →
      t ≤ (m.codeOrEmpty f.code).size) (fuel t : Nat) :
    Continues pid (m.setProc (p.modifyTop fun g => { g with pc := t }))
      (m.setProc (p.modifyTop fun g =>
        { g with pc := Code.chaseTarget (m.codeOrEmpty f.code).instrs t fuel })) := by
  induction fuel generalizing t with
  | zero => exact .refl
  | succ fuel ih =>
    unfold Code.chaseTarget
    cases hnext : (m.codeOrEmpty f.code).instrs[t]? >>= Code.plainJumpTarget? with
    | none => exact .refl
    | some next =>
      dsimp only
      by_cases same : next = t
      · rw [if_neg (by simp [same])]
        exact .refl
      rw [if_pos (by simpa using same)]
      -- the plain jump at `t` moves the frame to `next`, and the chain goes on from there
      obtain ⟨op, at_, plain⟩ := Option.bind_eq_some_iff.mp hnext
      have jumpAt := plainJumpTargetSome plain
      subst jumpAt
      have found' : (m.setProc (p.modifyTop fun g => { g with pc := t })).proc? pid =
          some (p.modifyTop fun g => { g with pc := t }) :=
        procSetFound found ((Process.modifyTopId p _).trans (procIdOf found))
      have top' : (p.modifyTop fun g => { g with pc := t }).frames.back? = some { f with pc := t } := by
        rw [Process.modifyTopBack, top]
        rfl
      have codeAt : ((m.setProc (p.modifyTop fun g => { g with pc := t })).codeOrEmpty
          { f with pc := t }.code).instr? { f with pc := t }.pc =
            some (.jump ⟨.always, false, false, next⟩) := by
        rw [setProcCodeOrEmpty]
        exact at_
      have stepped := plainJumpStep found' top' codeAt
        (by rw [setProcCodeOrEmpty]; exact inside t next at_)
      rw [setProcTwice _ (by simp only [Process.modifyTopId]), Process.modifyTopTwice] at stepped
      exact .head stepped (ih next)

/-- What compaction's rewrites rest on, at a process's top frame. A redundant instruction
only moves the frame on, except that a conditional jump fails on an empty part of the value
stack; and from a jump's target, plain jumps alone lead to where threading points the jump. -/
theorem compactRewriteSteps (found : m.proc? pid = some p) (top : p.frames.back? = some f) :
    (∀ op, (m.codeOrEmpty f.code).instr? f.pc = some op → Code.isRedundant f.pc op →
      m.step pid = (m.setProc (p.modifyTop fun f => { f with pc := f.pc + 1 }),
        if op.peeks && decide (p.values.size ≤ p.valueFloor) then .error .stackUnderflow
        else .ok .continue)) ∧
    ((∀ i t, (m.codeOrEmpty f.code).instr? i = some (.jump ⟨.always, false, false, t⟩) →
        t ≤ (m.codeOrEmpty f.code).size) →
      ∀ fuel t, Continues pid (m.setProc (p.modifyTop fun g => { g with pc := t }))
        (m.setProc (p.modifyTop fun g =>
          { g with pc := Code.chaseTarget (m.codeOrEmpty f.code).instrs t fuel }))) :=
  ⟨fun _ at_ redundant => redundantStep found top at_ redundant, chaseContinues found top⟩

/-- A unit whose first instruction jumps to the second, a conditional jump to the end. Run
on an empty stack, the plain jump leads to the conditional one, which fails; compaction
deletes both. -/
theorem deletedJumpUnderflows :
    ∃ (m : Machine) (p : Process) (f : Frame), m.proc? 1 = some p ∧ p.frames.back? = some f ∧
      Continues 1 (m.setProc (p.modifyTop fun g => { g with pc := 0 }))
        (m.setProc (p.modifyTop fun g => { g with pc := 1 })) ∧
      ((m.setProc (p.modifyTop fun g => { g with pc := 1 })).step 1).2 =
        .error .stackUnderflow := by
  let unit : Code :=
    { instrs := #[.jump ⟨.always, false, false, 1⟩, .jump ⟨.ifTrue, false, false, 2⟩] }
  let m := ((Exec.pushFrame 1 ⟨0⟩ false).run (({ codes := #[unit] } : Machine).create "main").1).2
  have entered : ((m.proc? 1).bind fun p => p.frames.back?).isSome := by decide +kernel
  obtain ⟨p, found⟩ : ∃ p, m.proc? 1 = some p := by
    cases h : m.proc? 1 with
    | none => simp [h] at entered
    | some p => exact ⟨p, rfl⟩
  rw [found, Option.bind_some] at entered
  obtain ⟨f, top⟩ := Option.isSome_iff_exists.mp entered
  have facts : ((m.proc? 1).bind fun p => p.frames.back?.map fun f =>
      (m.codeOrEmpty f.code).instrs == unit.instrs && p.values.isEmpty &&
        decide (p.values.size ≤ p.valueFloor)) = some true := by decide +kernel
  rw [found, Option.bind_some, top, Option.map_some, Option.some.injEq] at facts
  simp only [Bool.and_eq_true, beq_iff_eq, decide_eq_true_eq] at facts
  obtain ⟨⟨code, -⟩, empty⟩ := facts
  have instrAt : ∀ i, (m.codeOrEmpty f.code).instr? i = unit.instrs[i]? := fun i => by
    rw [Code.instr?, code]
  have inside : ∀ i t, (m.codeOrEmpty f.code).instr? i = some (.jump ⟨.always, false, false, t⟩) →
      t ≤ (m.codeOrEmpty f.code).size := by
    intro i t at_
    rw [instrAt] at at_
    have size : (m.codeOrEmpty f.code).size = 2 := by rw [Code.size, code]; rfl
    rw [size]
    rcases i with _ | _ | i
    · simp only [unit, List.getElem?_toArray, List.getElem?_cons_zero, Option.some.injEq,
        Instr.jump.injEq, Jump.mk.injEq] at at_
      omega
    · simp [unit] at at_
    · simp [unit] at at_
  refine ⟨m, p, f, found, top, ?_, ?_⟩
  · have walk := (compactRewriteSteps found top).2 inside 1 0
    rwa [code] at walk
  · -- at the conditional jump, with nothing on the stack
    have found' : (m.setProc (p.modifyTop fun g => { g with pc := 1 })).proc? 1 =
        some (p.modifyTop fun g => { g with pc := 1 }) :=
      procSetFound found ((Process.modifyTopId p _).trans (procIdOf found))
    have top' : (p.modifyTop fun g => { g with pc := 1 }).frames.back? = some { f with pc := 1 } := by
      rw [Process.modifyTopBack, top]
      rfl
    have at' : ((m.setProc (p.modifyTop fun g => { g with pc := 1 })).codeOrEmpty
        { f with pc := 1 }.code).instr? { f with pc := 1 }.pc =
          some (.jump ⟨.ifTrue, false, false, 2⟩) := by
      rw [setProcCodeOrEmpty, instrAt]
      rfl
    have keeps : ∀ g : Frame, g.Retains { g with pc := 1 } := fun _ => rfl
    rw [(compactRewriteSteps found' top').1 _ at' rfl, Process.modifyTopValues,
      Process.valueFloorRetop keeps]
    simp [Instr.peeks, empty]

/-- A unit of one conditional jump to its end, run on an empty stack: its first step fails
with a stack underflow, while compaction deletes the jump, and the frame of the compacted
unit returns at once. -/
theorem compactedJumpDiverges :
    let unit : Code := { instrs := #[.jump ⟨.ifTrue, false, false, 1⟩] }
    let start (c : Code) : Machine :=
      ((Exec.pushFrame 1 ⟨0⟩ true).run (({ codes := #[c] } : Machine).create "p").1).2
    ((start unit).step 1).2 = .error .stackUnderflow ∧ unit.compact.instrs = #[] ∧
      ((start unit.compact).step 1).2 = .ok (.ret none) := by
  intro unit start
  have entered : (((start unit).proc? 1).bind fun p => p.frames.back?).isSome := by decide +kernel
  obtain ⟨p, found⟩ : ∃ p, (start unit).proc? 1 = some p := by
    cases h : (start unit).proc? 1 with
    | none => simp [h] at entered
    | some p => exact ⟨p, rfl⟩
  rw [found, Option.bind_some] at entered
  obtain ⟨f, top⟩ := Option.isSome_iff_exists.mp entered
  have facts : (((start unit).proc? 1).bind fun p => p.frames.back?.map fun f =>
      ((start unit).codeOrEmpty f.code).instr? f.pc == some (.jump ⟨.ifTrue, false, false, 1⟩) &&
        f.pc == 0 && decide (p.values.size ≤ p.valueFloor)) = some true := by decide +kernel
  rw [found, Option.bind_some, top, Option.map_some, Option.some.injEq] at facts
  simp only [Bool.and_eq_true, beq_iff_eq, decide_eq_true_eq] at facts
  obtain ⟨⟨at_, first⟩, empty⟩ := facts
  have redundant : Code.isRedundant f.pc (.jump ⟨.ifTrue, false, false, 1⟩) := by
    rw [first]
    rfl
  have returns : ((start unit.compact).step 1).2.toOption = some (.ret none) := by decide +kernel
  refine ⟨?_, by decide +kernel, ?_⟩
  · rw [(compactRewriteSteps found top).1 _ at_ redundant]
    simp [Instr.peeks, empty]
  · revert returns
    cases ((start unit.compact).step 1).2 <;> simp [Except.toOption]

end Machine

end ScriptEngine
