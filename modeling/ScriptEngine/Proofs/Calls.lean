import ScriptEngine.Proofs.Reachable
/-!
Calls. A call takes the unit on top of the value stack and the arguments below it, above
the caller's base, and enters a frame for the unit whose first locals are the arguments in
the order they were pushed, the rest empty. Until that frame is left, whatever runs above
it leaves the caller's part of every stack alone; leaving it normally puts the caller back
on top, at the instruction after the call, with the call's operands replaced by the result
if one was wanted.
-/
namespace ScriptEngine

theorem Process.popValueOk {p q : Process} {v : Value} (h : p.popValue = .ok (q, v)) :
    p.valueFloor < p.values.size ∧ p.values.back? = some v ∧ q = { p with values := p.values.pop } := by
  unfold Process.popValue at h
  split at h
  · cases h
  · split at h
    · rename_i v' back
      cases h
      exact ⟨by omega, back, rfl⟩
    · cases h

theorem Process.popTake {α : Type} (xs : Array α) {k : Nat} (h : k < xs.size) :
    xs.pop.take k = xs.take k := by
  apply Array.ext_getElem?
  intro i
  rw [Process.getElemTake, Process.getElemTake, Array.getElem?_pop]
  split
  · rw [if_pos (by omega)]
  · rfl

namespace Machine

theorem setProcCodes (m : Machine) (q : Process) : (m.setProc q).codes = m.codes := by
  unfold Machine.setProc Machine.modifyProc
  split <;> rfl

theorem setProcNextFrame (m : Machine) (q : Process) : (m.setProc q).nextFrame = m.nextFrame := by
  unfold Machine.setProc Machine.modifyProc
  split <;> rfl

theorem setProcCodeOrEmpty (m : Machine) (q : Process) (id : CodeId) :
    (m.setProc q).codeOrEmpty id = m.codeOrEmpty id := by
  simp only [codeOrEmpty, code?, setProcCodes]

theorem codeOrEmptyRelocate (m : Machine) (id : CodeId) :
    (m.modifyCode id Code.relocate).codeOrEmpty id =
      ((m.code? id).map Code.relocate).getD Code.empty := by
  simp only [codeOrEmpty, code?, modifyCode, Array.getElem?_modify]
  split <;> simp_all

end Machine

namespace Exec

open Machine

variable {m m' : Machine}

theorem runPopOk {pid : Nat} {v : Value} (h : (pop pid).run m = (.ok v, m')) :
    ∃ p q, m.proc? pid = some p ∧ p.popValue = .ok (q, v) ∧ m' = m.setProc q := by
  unfold pop at h
  obtain ⟨p, m₁, got, afterProc⟩ := runBindOk h
  obtain ⟨found, rfl⟩ := runProcOk got
  obtain ⟨⟨q, v'⟩, m₂, lifted, afterPop⟩ := runBindOk afterProc
  obtain ⟨popped, rfl⟩ := runLiftFaultOk lifted
  obtain ⟨_, m₃, stored, returned⟩ := runBindOk afterPop
  cases stored
  cases returned
  exact ⟨p, q, found, popped, rfl⟩

theorem runModifyTopOk {pid : Nat} {g : Frame → Frame} (h : (modifyTop pid g).run m = (.ok (), m')) :
    ∃ p, m.proc? pid = some p ∧ m' = m.setProc (p.modifyTop g) := by
  unfold modifyTop at h
  obtain ⟨p, m₁, got, stored⟩ := runBindOk h
  obtain ⟨found, rfl⟩ := runProcOk got
  cases stored
  exact ⟨p, found, rfl⟩

theorem runPushFrameOk {pid : Nat} {code : CodeId} {w : Bool}
    (h : (pushFrame pid code w).run m = (.ok (), m')) :
    ∃ (p q : Process) (mr : Machine), m.proc? pid = some p ∧ mr.procs = m.procs ∧
      mr.nextFrame = m.nextFrame ∧ (mr.codeOrEmpty code).locals = (m.codeOrEmpty code).locals ∧
      p.pushFrame code (m.codeOrEmpty code).locals.size m.nextFrame w = .ok q ∧
      m' = { mr with nextFrame := mr.nextFrame + 1 }.setProc q := by
  unfold pushFrame at h
  obtain ⟨p, m₁, got, afterProc⟩ := runBindOk h
  obtain ⟨found, same⟩ := runProcOk got
  rw [same] at afterProc
  obtain ⟨-, room⟩ := runGuardOk afterProc
  obtain ⟨_, m₂, got, afterGet⟩ := runBindOk room
  cases got
  -- after the unit is relocated or not, a serial is taken and the frame pushed
  have entered : ∀ mr : Machine, mr.procs = m.procs → mr.nextFrame = m.nextFrame →
      (mr.codeOrEmpty code).locals = (m.codeOrEmpty code).locals →
      (do
        let m ← get
        set { m with nextFrame := m.nextFrame + 1 }
        let q ← liftFault (p.pushFrame code (m.codeOrEmpty code).locals.size m.nextFrame w)
        setProc q : Exec Unit).run mr = (.ok (), m') →
      ∃ (q : Process) (mr : Machine), mr.procs = m.procs ∧ mr.nextFrame = m.nextFrame ∧
        (mr.codeOrEmpty code).locals = (m.codeOrEmpty code).locals ∧
        p.pushFrame code (m.codeOrEmpty code).locals.size m.nextFrame w = .ok q ∧
        m' = { mr with nextFrame := mr.nextFrame + 1 }.setProc q := by
    intro mr procs serial locals run
    obtain ⟨_, m₃, got, afterGet⟩ := runBindOk run
    cases got
    obtain ⟨_, m₄, stored, afterSet⟩ := runBindOk afterGet
    cases stored
    obtain ⟨q, m₅, lifted, afterLift⟩ := runBindOk afterSet
    obtain ⟨pushed, rfl⟩ := runLiftFaultOk lifted
    cases afterLift
    refine ⟨q, mr, procs, serial, locals, ?_, rfl⟩
    rw [← locals, ← serial]
    exact pushed
  have relocated : ((m.modifyCode code Code.relocate).codeOrEmpty code).locals =
      (m.codeOrEmpty code).locals := by
    rw [codeOrEmptyRelocate]
    cases hc : m.code? code <;> simp [Machine.codeOrEmpty, hc, Code.relocate]
  split at afterGet
  · obtain ⟨_, m₃, stored, rest⟩ := runBindOk afterGet
    cases stored
    obtain ⟨q, mr, procs, serial, locals, pushed, rfl⟩ :=
      entered (m.modifyCode code Code.relocate) rfl rfl relocated rest
    exact ⟨p, q, mr, found, procs, serial, locals, pushed, rfl⟩
  · obtain ⟨q, mr, procs, serial, locals, pushed, rfl⟩ := entered m rfl rfl rfl afterGet
    exact ⟨p, q, mr, found, procs, serial, locals, pushed, rfl⟩

theorem runCallOk {pid n : Nat} {w : Bool} (h : (call pid n w).run m = (.ok (), m')) :
    ∃ (p q : Process) (id : CodeId), m.proc? pid = some p ∧ p.values.back? = some (.code id) ∧
      p.valueFloor + n < p.values.size ∧
      { p with values := p.values.pop.take (p.values.pop.size - n) }.pushFrame id
        (m.codeOrEmpty id).locals.size m.nextFrame w = .ok q ∧
      m'.proc? pid = some (q.modifyTop (Frame.takeArgs
        (p.values.pop.extract (p.values.pop.size - n)))) := by
  unfold call at h
  obtain ⟨callee, m₁, popped, afterPop⟩ := runBindOk h
  obtain ⟨p, p₂, found, pv, same⟩ := runPopOk popped
  obtain ⟨above, back, rfl⟩ := Process.popValueOk pv
  have hid := procIdOf found
  rw [same] at afterPop
  split at afterPop
  case h_2 =>
    obtain ⟨_, _, thrown, _⟩ := runBindOk afterPop
    cases thrown
  rename_i id
  obtain ⟨_, _, got, afterId⟩ := runBindOk afterPop
  cases got
  obtain ⟨_, _, got, afterGet⟩ := runBindOk afterId
  cases got
  obtain ⟨-, afterMin⟩ := runGuardOk afterGet
  obtain ⟨-, afterMax⟩ := runGuardOk afterMin
  obtain ⟨p₂, _, got, afterProc⟩ := runBindOk afterMax
  obtain ⟨found₂, same₂⟩ := runProcOk got
  rw [same₂] at afterProc
  cases found₂.symm.trans (procSetFound found hid)
  obtain ⟨enough, afterCheck⟩ := runGuardOk afterProc
  obtain ⟨_, _, stored, afterStore⟩ := runBindOk afterCheck
  cases stored
  obtain ⟨_, m₄, pushed, modified⟩ := runBindOk afterStore
  obtain ⟨p₃, q, mr, found₃, procs, serial, locals, pf, same₃⟩ := runPushFrameOk pushed
  cases found₃.symm.trans (procSetFound (procSetFound found hid) hid)
  have hq : q.id = pid := by rw [(Process.pushFrameOk pf).2]; exact hid
  rw [same₃] at modified
  obtain ⟨q', found₄, same₄⟩ := runModifyTopOk modified
  have present := (procOfProcs (show ({ mr with nextFrame := mr.nextFrame + 1 } : Machine).procs =
    _ from procs) pid).trans (procSetFound (procSetFound found hid) hid)
  cases found₄.symm.trans (procSetFound present hq)
  have enough' : p.valueFloor + n < p.values.size := by
    simp only [Process.valueFloor, Array.size_pop] at enough ⊢
    omega
  refine ⟨p, q, id, found, back, enough', ?_, ?_⟩
  · simp only [Machine.codeOrEmpty, Machine.code?, setProcCodes, setProcNextFrame] at pf ⊢
    exact pf
  · rw [same₄]
    exact procSetFound (procSetFound present hq) (by rw [Process.modifyTopId]; exact hq)

end Exec

/-! The callee's locals. -/

theorem foldSetAt (l : List Value) (k : Nat) (ls : Array Value) (room : k + l.length ≤ ls.size)
    (j : Nat) :
    ((l.zipIdx k).foldl (fun ls (x : Value × Nat) => ls.set! x.2 x.1) ls)[j]? =
      if k ≤ j ∧ j < k + l.length then l[j - k]? else ls[j]? := by
  induction l generalizing k ls with
  | nil =>
    simp only [List.zipIdx_nil, List.foldl_nil, List.length_nil]
    rw [if_neg (by omega)]
  | cons v l ih =>
    simp only [List.zipIdx_cons, List.foldl_cons, List.length_cons] at room ⊢
    rw [ih (k + 1) _ (by simp; omega), Array.set!_eq_setIfInBounds, Array.getElem?_setIfInBounds]
    by_cases hj : j = k
    · subst hj
      rw [if_neg (by omega), if_pos rfl, if_pos (by omega), if_pos (by omega), Nat.sub_self]
      rfl
    · by_cases lo : k + 1 ≤ j ∧ j < k + 1 + l.length
      · rw [if_pos lo, if_pos (by omega), show j - k = (j - (k + 1)) + 1 by omega]
        rfl
      · rw [if_neg lo, if_neg (Ne.symm hj), if_neg (by omega)]

theorem takeArgsLocals (given : Array Value) (f : Frame) (j : Nat) :
    (f.takeArgs given).locals[j]? =
      if j < given.size then given[j]? else f.locals[j]? := by
  unfold Frame.takeArgs
  dsimp only
  rw [← Array.foldl_toList, Array.toList_zipIdx]
  rw [foldSetAt _ 0 _ (by split <;> simp <;> omega)]
  simp only [Nat.zero_le, true_and, Nat.zero_add, Nat.sub_zero, Array.length_toList,
    Array.getElem?_toList]
  split
  · rfl
  · split
    · rw [Array.getElem?_append, Array.getElem?_replicate]
      split
      · rfl
      · rw [if_neg (by simp; omega), Array.getElem?_eq_none (by omega)]
    · rfl

namespace Machine

open Exec

theorem stepRun {m m' : Machine} {pid : Nat} {p : Process} {f : Frame} {op : Instr}
    {r : Except Fault Outcome} (found : m.proc? pid = some p) (top : p.frames.back? = some f)
    (at_ : (m.codeOrEmpty f.code).instr? f.pc = some op) :
    m.step pid = (m', r) ↔ (Exec.instr pid (m.codeOrEmpty f.code) op).run
      (m.setProc (p.modifyTop fun f => { f with pc := f.pc + 1 })) = (r, m') := by
  simp only [step, found, top, at_]
  rcases (Exec.instr pid (m.codeOrEmpty f.code) op).run
    (m.setProc (p.modifyTop fun f => { f with pc := f.pc + 1 })) with ⟨r₀, m₀⟩
  rw [Prod.mk.injEq, Prod.mk.injEq]
  exact and_comm

theorem stepCallEnters {m m' : Machine} {pid n : Nat} {w : Bool} {p : Process} {F : Frame}
    (found : m.proc? pid = some p) (top : p.frames.back? = some F)
    (op : (m.codeOrEmpty F.code).instr? F.pc = some (.call n w))
    (called : m.step pid = (m', .ok .continue)) :
    ∃ (id : CodeId) (c : Frame), p.values.back? = some (.code id) ∧
      p.valueFloor + n < p.values.size ∧
      m'.proc? pid = some { p with
        frames := (p.frames.pop.push { F with pc := F.pc + 1 }).push c
        values := p.values.take (p.values.size - (n + 1))
        contextTos := p.contexts.size } ∧
      c.code = id ∧ c.pc = 0 ∧ c.index = p.frames.size ∧ c.valueSp = p.values.size - (n + 1) ∧
      c.contextSp = p.contexts.size ∧ c.contextTos = p.contexts.size ∧
      c.handlerSp = p.handlers.size ∧ c.wantResult = w ∧
      ∀ i : Nat, c.locals[i]? = if i < n then p.values[p.values.size - (n + 1) + i]?
        else if i < (m.codeOrEmpty id).locals.size then some .empty else none := by
  rw [stepRun found top op] at called
  obtain ⟨_, m₂, calledOk, returned⟩ := runBindOk called
  cases returned
  -- the caller has moved past the call: only its `pc` differs
  have moved : (p.modifyTop fun f => { f with pc := f.pc + 1 }) =
      { p with frames := p.frames.pop.push { F with pc := F.pc + 1 } } := by
    simp [Process.modifyTop, top]
  rw [moved] at calledOk
  obtain ⟨p₁, q, id, found₁, back, enough, pushed, entered⟩ := runCallOk calledOk
  have hid := procIdOf found
  cases found₁.symm.trans (procSetFound found hid)
  obtain ⟨room, rfl⟩ := Process.pushFrameOk pushed
  simp only [Process.modifyTop, Array.back?_push, Array.pop_push] at entered
  have size : 0 < p.values.size := by
    rcases Nat.eq_zero_or_pos p.values.size with h | h
    · simp [Array.back?_eq_getElem?, h] at back
    · exact h
  have values : p.values.pop.take (p.values.pop.size - n) =
      p.values.take (p.values.size - (n + 1)) := by
    rw [Array.size_pop, Process.popTake _ (by omega), Nat.sub_sub, Nat.add_comm 1 n]
  have framed : 0 < p.frames.size := by
    rcases Nat.eq_zero_or_pos p.frames.size with h | h
    · simp [Array.back?_eq_getElem?, h] at top
    · exact h
  have floor : F.valueSp + n < p.values.size := by
    simpa [Process.valueFloor] using enough
  refine ⟨id, _, back, ?_, by rw [entered, values], rfl, rfl, ?_, ?_, rfl, rfl, rfl, rfl, ?_⟩
  · simpa [Process.valueFloor, top] using floor
  · simp only [Frame.takeArgs, Array.size_push, Array.size_pop]
    omega
  · simp [Frame.takeArgs, Array.take_eq_extract]
  · intro i
    have given : (p.values.pop.extract (p.values.pop.size - n)).size = n := by
      simp only [Array.size_extract, Array.size_pop]
      omega
    rw [takeArgsLocals, given]
    split
    · rename_i lt
      rw [Array.getElem?_extract, Array.getElem?_pop]
      simp only [Array.size_pop]
      rw [if_pos (by omega), if_pos (by omega)]
      congr 1
      omega
    · rw [setProcCodeOrEmpty, Array.getElem?_replicate]

end Machine

end ScriptEngine
