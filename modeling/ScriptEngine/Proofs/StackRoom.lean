import ScriptEngine.Proofs.ListOperations
/-!
Room on the value stack. A push onto the stack checks its limit, but two pushes do not: a
fault caught by a handler cuts the stack back to the handler's depth and pushes the fault's
message, and a frame that returns a result cuts it back to the frame's depth and pushes the
result. Each lands one above a depth recorded earlier, so the stack keeps within its limit
while every handler, and every frame that returns a result, recorded a depth below the limit.
A catch records the depth it finds; a catch on a full stack is what breaks this, and its
fault then leaves one value more than the limit (`catchOnFullStackOverflows`). Every other
instruction keeps the room, a call too, since it takes the unit it calls off the stack before
entering it; so do returns, caught faults and the end of a process. A run of code that installs
no handler therefore keeps every process's stack within its limit.
-/
namespace ScriptEngine

namespace Process

/-- The value stack is within its limit, and the pushes that do not check the limit have
room: every handler, and every frame that returns a result, recorded a depth below it. -/
structure Roomy (p : Process) : Prop where
  within : p.values.size ≤ p.limits.maxValues
  handlers : ∀ h ∈ p.handlers, h.valueSp < p.limits.maxValues
  frames : ∀ f ∈ p.frames, f.wantResult = true → f.valueSp < p.limits.maxValues

instance (p : Process) : Decidable p.Roomy :=
  decidable_of_iff (p.values.size ≤ p.limits.maxValues ∧
      (∀ h ∈ p.handlers, h.valueSp < p.limits.maxValues) ∧
      ∀ f ∈ p.frames, f.wantResult = true → f.valueSp < p.limits.maxValues)
    ⟨fun ⟨a, b, c⟩ => ⟨a, b, c⟩, fun ⟨a, b, c⟩ => ⟨a, b, c⟩⟩

variable {p q : Process}

theorem Roomy.change (r : p.Roomy) (limits : q.limits = p.limits)
    (within : q.values.size ≤ p.limits.maxValues)
    (handlers : ∀ h ∈ q.handlers, h ∈ p.handlers ∨ h.valueSp < p.limits.maxValues)
    (frames : ∀ f ∈ q.frames, (∃ g ∈ p.frames, g.wantResult = f.wantResult ∧ g.valueSp = f.valueSp) ∨
      (f.wantResult = true → f.valueSp < p.limits.maxValues)) : q.Roomy where
  within := limits ▸ within
  handlers h mem := by
    rw [limits]
    rcases handlers h mem with old | room
    · exact r.handlers h old
    · exact room
  frames f mem wants := by
    rw [limits]
    rcases frames f mem with ⟨g, old, sameWish, sameDepth⟩ | room
    · exact sameDepth ▸ r.frames g old (sameWish ▸ wants)
    · exact room wants

theorem memTake {α : Type} {xs : Array α} {n : Nat} {x : α} (mem : x ∈ xs.take n) : x ∈ xs := by
  obtain ⟨i, lt, rfl⟩ := Array.mem_iff_getElem.mp mem
  simp only [Array.take_eq_extract, Array.size_extract] at lt
  exact Array.mem_iff_getElem.mpr ⟨i, by omega, by simp⟩

theorem memPop {α : Type} {xs : Array α} {x : α} (mem : x ∈ xs.pop) : x ∈ xs := by
  obtain ⟨i, lt, rfl⟩ := Array.mem_iff_getElem.mp mem
  simp only [Array.size_pop] at lt
  exact Array.mem_iff_getElem.mpr ⟨i, by omega, by simp⟩

theorem sameFrame {g : Frame} (mem : g ∈ p.frames) (f : Frame) (wish : f.wantResult = g.wantResult)
    (depth : f.valueSp = g.valueSp) :
    ∃ g ∈ p.frames, g.wantResult = f.wantResult ∧ g.valueSp = f.valueSp :=
  ⟨g, mem, wish.symm, depth.symm⟩

theorem Roomy.modifyTop (r : p.Roomy) (g : Frame → Frame) (keeps : ∀ f : Frame, f.Retains (g f)) :
    (p.modifyTop g).Roomy := by
  unfold Process.modifyTop
  split
  · rename_i top found
    refine r.change rfl r.within (fun _ mem => .inl mem) fun f mem => .inl ?_
    rcases Array.mem_push.mp mem with old | rfl
    · exact sameFrame (memPop old) f rfl rfl
    · rw [keeps top]
      exact sameFrame (Array.mem_of_back? found) _ rfl rfl
  · exact r

theorem Roomy.values (r : p.Roomy) (vs : Array Value) (within : vs.size ≤ p.limits.maxValues) :
    { p with values := vs }.Roomy :=
  r.change rfl within (fun _ mem => .inl mem) fun f mem => .inl (sameFrame mem f rfl rfl)

theorem Roomy.pushValue (r : p.Roomy) {v : Value} (pushed : p.pushValue v = .ok q) : q.Roomy := by
  unfold Process.pushValue at pushed
  split at pushed
  · cases pushed
  · cases pushed
    exact r.values _ (by simp only [Array.size_push]; omega)

theorem Roomy.popValue (r : p.Roomy) {v : Value} (popped : p.popValue = .ok (q, v)) :
    q.Roomy ∧ q.values.size < q.limits.maxValues := by
  obtain ⟨above, -, rfl⟩ := Process.popValueOk popped
  have within := r.within
  exact ⟨r.values _ (by simp only [Array.size_pop]; omega), by simp only [Array.size_pop]; omega⟩

theorem Roomy.pushFrame (r : p.Roomy) {code : CodeId} {n serial : Nat} {w : Bool}
    (pushed : p.pushFrame code n serial w = .ok q) (room : w = true → p.values.size < p.limits.maxValues) :
    q.Roomy := by
  unfold Process.pushFrame at pushed
  split at pushed
  · cases pushed
  · cases pushed
    refine r.change rfl r.within (fun _ mem => .inl mem) fun f mem => ?_
    rcases Array.mem_push.mp mem with old | rfl
    · exact .inl (sameFrame old f rfl rfl)
    · exact .inr room

theorem Roomy.pushHandler (r : p.Roomy) (pc : Nat) (room : p.values.size < p.limits.maxValues) :
    (p.pushHandler pc).Roomy := by
  refine r.change rfl r.within (fun h mem => ?_) fun f mem => .inl (sameFrame mem f rfl rfl)
  rcases Array.mem_push.mp mem with old | rfl
  · exact .inl old
  · exact .inr room

theorem Roomy.popHandler (r : p.Roomy) {h : Handler} (popped : p.popHandler = some (q, h)) : q.Roomy := by
  obtain ⟨-, -, rfl⟩ := popHandlerSome popped
  exact r.change rfl r.within (fun _ mem => .inl (memPop mem)) fun f mem => .inl (sameFrame mem f rfl rfl)

theorem Roomy.contexts (r : p.Roomy) (cs : Array ContextId) (tos : Nat) :
    { p with contexts := cs, contextTos := tos }.Roomy :=
  r.change rfl r.within (fun _ mem => .inl mem) fun f mem => .inl (sameFrame mem f rfl rfl)

theorem Roomy.markContextTos (r : p.Roomy) : p.markContextTos.1.Roomy := by
  have top := Roomy.modifyTop r (fun f => { f with contextTos := p.contexts.size }) fun _ => rfl
  exact top.contexts _ _

theorem Roomy.returnFromFrame (r : p.Roomy) {value : Option Value}
    (left : p.returnFromFrame value = some q) : q.Roomy := by
  unfold Process.returnFromFrame at left
  cases top : p.frames.back? with
  | none => simp [top] at left
  | some f =>
    have mem : f ∈ p.frames := Array.mem_of_back? top
    have cut : (p.values.take f.valueSp).size ≤ min f.valueSp p.values.size := by
      simp only [Array.take_eq_extract, Array.size_extract]; omega
    have within := r.within
    have stays : ∀ (vs : Array Value), vs.size ≤ p.limits.maxValues → ∀ res,
        { p with
          frames := p.frames.pop, values := vs, contexts := p.contexts.take f.contextSp,
          handlers := p.handlers.take f.handlerSp,
          contextTos := (p.frames.pop.back?.map fun (g : Frame) =>
            min g.contextTos (p.contexts.take f.contextSp).size).getD 0, result := res }.Roomy :=
      fun vs fits res => r.change rfl fits (fun _ mem => .inl (memTake mem))
        fun g mem => .inl (sameFrame (memPop mem) g rfl rfl)
    simp only [top, bind, Option.bind] at left
    split at left
    · rename_i wants
      have room := r.frames f mem wants
      split at left <;> cases left
      · exact stays _ (by omega) _
      · exact stays _ (by simp only [Array.size_push]; omega) _
    · cases left
      exact stays _ (by omega) _

theorem Roomy.unwindGo (fault : Fault) : ∀ (fuel : Nat) {p : Process}, p.Roomy → (unwind.go fault fuel p).1.Roomy
  | 0, _, r => r
  | fuel + 1, p, r => by
    unfold unwind.go
    split
    · exact r
    · rename_i h back
      have room := r.handlers h (Array.mem_of_back? back)
      have popped : { p with handlers := p.handlers.pop }.Roomy :=
        r.change rfl r.within (fun _ mem => .inl (memPop mem)) fun f mem => .inl (sameFrame mem f rfl rfl)
      dsimp only
      split
      · exact Roomy.unwindGo fault fuel popped
      · -- the frames are those below the handler's, the top one resuming at the handler
        have cut : { p with
            handlers := p.handlers.pop, frames := p.frames.take h.frameSp,
            contexts := p.contexts.take h.contextSp, values := p.values.take h.valueSp }.Roomy :=
          r.change rfl (by simp; omega) (fun _ mem => .inl (memPop mem))
            fun f mem => .inl (sameFrame (memTake mem) f rfl rfl)
        have resumed : ∀ q : Process, q.Roomy → q.values.size ≤ h.valueSp →
            h.valueSp < q.limits.maxValues →
            { q with values := q.values.push (.str fault.message) }.Roomy := fun q rq fits room =>
          rq.values _ (by simp only [Array.size_push]; omega)
        have fits : (p.values.take h.valueSp).size ≤ h.valueSp := by
          simp only [Array.take_eq_extract, Array.size_extract]; omega
        split
        · rename_i f top
          have moved : { p with
              handlers := p.handlers.pop, frames := (p.frames.take h.frameSp).pop.push
                { f with pc := h.pc, contextTos := min f.contextTos (p.contexts.take h.contextSp).size },
              contexts := p.contexts.take h.contextSp, values := p.values.take h.valueSp,
              contextTos := min f.contextTos (p.contexts.take h.contextSp).size }.Roomy := by
            refine cut.change rfl cut.within (fun _ mem => .inl mem) fun g mem => .inl ?_
            rcases Array.mem_push.mp mem with old | rfl
            · exact sameFrame (memPop old) g rfl rfl
            · exact sameFrame (g := f) (Array.mem_of_back? top) _ rfl rfl
          exact resumed _ moved fits room
        · exact resumed _ cut fits room

theorem Roomy.unwind (r : p.Roomy) (fault : Fault) : (p.unwind fault).1.Roomy :=
  Roomy.unwindGo fault _ r

theorem memSet {α : Type} {xs : Array α} {k : Nat} {y x : α} (mem : x ∈ xs.set! k y) : x ∈ xs ∨ x = y := by
  rw [Array.set!_eq_setIfInBounds, ← Array.mem_toList_iff, Array.toList_setIfInBounds] at mem
  exact (List.mem_or_eq_of_mem_set mem).imp Array.mem_toList_iff.mp fun same => same

theorem Roomy.setLocals (r : p.Roomy) {k : Nat} {f : Frame} (at_ : p.frames[k]? = some f) (ls : Array Value) :
    { p with frames := p.frames.set! k { f with locals := ls } }.Roomy := by
  refine r.change rfl r.within (fun _ mem => .inl mem) fun g mem => .inl ?_
  rcases memSet mem with old | rfl
  · exact sameFrame old g rfl rfl
  · exact sameFrame (g := f) (Array.mem_of_getElem? at_) _ rfl rfl

theorem Roomy.ofEmpty (frames : q.frames = #[]) (handlers : q.handlers = #[]) (values : q.values = #[]) :
    q.Roomy :=
  ⟨by simp [values], fun _ mem => by simp [handlers] at mem, fun _ mem => by simp [frames] at mem⟩

theorem Roomy.ofStacks (r : p.Roomy) (limits : q.limits = p.limits) (values : q.values = p.values)
    (handlers : q.handlers = p.handlers) (frames : q.frames = p.frames) : q.Roomy :=
  r.change limits (values ▸ r.within) (fun _ mem => .inl (handlers ▸ mem))
    fun f mem => .inl (sameFrame (frames ▸ mem) f rfl rfl)

end Process

/-- Whether an instruction installs a handler. -/
def Instr.installsHandler : Instr → Bool
  | .jump j => j.condition == .handler
  | _ => false

namespace Machine

/-- Every process has room on its value stack. -/
def Spacious (m : Machine) : Prop := ∀ p ∈ m.procs, p.Roomy

instance (m : Machine) : Decidable m.Spacious := by
  unfold Spacious; infer_instance

/-- No unit installs a handler. -/
def CatchFree (codes : Array Code) : Prop := ∀ c ∈ codes, ∀ op ∈ c.instrs, op.installsHandler = false

instance (codes : Array Code) : Decidable (CatchFree codes) := by
  unfold CatchFree; infer_instance

/-- The next instruction of `pid` installs a handler while its value stack is full. -/
def catchesOnFull (m : Machine) (pid : Nat) : Bool :=
  match m.proc? pid with
  | some p => match p.frames.back? with
    | some f => match (m.codeOrEmpty f.code).instr? f.pc with
      | some op => op.installsHandler && decide (p.limits.maxValues ≤ p.values.size)
      | none => false
    | none => false
  | none => false

/-- Process `pid` has room for one more value. -/
def HasRoom (pid : Nat) (m : Machine) : Prop :=
  ∀ p, m.proc? pid = some p → p.values.size < p.limits.maxValues

variable {m m' : Machine} {pid : Nat} {p q : Process}

theorem Spacious.find (s : m.Spacious) (found : m.proc? pid = some p) : p.Roomy :=
  s p (Array.mem_of_find?_eq_some found)

theorem Spacious.ofProcs (s : m.Spacious) (same : m'.procs = m.procs) : m'.Spacious :=
  fun p mem => s p (same ▸ mem)

theorem Spacious.modifyProc (s : m.Spacious) (f : Process → Process)
    (keeps : ∀ p, m.proc? pid = some p → (f p).Roomy) : (m.modifyProc pid f).Spacious := by
  intro x mem
  rw [modifyProcFirst] at mem
  rcases memModifyFirst f (List.mem_toArray.mp mem) with old | ⟨p, found, rfl⟩
  · exact s x (Array.mem_toList_iff.mp old)
  · exact keeps p (by rw [proc?, ← Array.find?_toList]; exact found)

theorem Spacious.setProc (s : m.Spacious) (r : q.Roomy) : (m.setProc q).Spacious :=
  s.modifyProc _ fun _ _ => r

theorem Spacious.setViewLocal (s : m.Spacious) (v : FrameView) (i : Nat) (x : Value) :
    (m.setViewLocal v i x).1.Spacious := by
  rcases setViewLocalEq m v i x with same | ⟨p, k, f, found, at_, eq⟩
  · rw [same]; exact s
  · rw [eq]; exact s.setProc ((s.find found).setLocals at_ _)

theorem memModify {α : Type} {xs : Array α} {i : Nat} {g : α → α} {x : α} (mem : x ∈ xs.modify i g) :
    x ∈ xs ∨ ∃ y ∈ xs, x = g y := by
  obtain ⟨j, lt, rfl⟩ := Array.mem_iff_getElem.mp mem
  simp only [Array.getElem_modify]
  split
  · exact .inr ⟨_, Array.getElem_mem _, rfl⟩
  · exact .inl (Array.getElem_mem _)

theorem relocateInstalls {c : Code} {op : Instr} (mem : op ∈ c.relocate.instrs) (installs : op.installsHandler = true) :
    ∃ op' ∈ c.instrs, op'.installsHandler = true := by
  simp only [Code.relocate, Array.mem_map] at mem
  obtain ⟨a, a_mem, rfl⟩ := mem
  refine ⟨a, a_mem, ?_⟩
  cases a
  case jump j => by_cases sym : j.symbolic = true <;> simp_all [Instr.installsHandler]
  all_goals simp_all [Instr.installsHandler]

theorem catchFreeRelocate {codes : Array Code} (free : CatchFree codes) (i : Nat) :
    CatchFree (codes.modify i Code.relocate) := by
  intro c mem op op_mem
  rcases memModify mem with old | ⟨c', old, rfl⟩
  · exact free c old op op_mem
  · cases installs : op.installsHandler
    · rfl
    · obtain ⟨op', op_mem', installs'⟩ := relocateInstalls op_mem installs
      rw [free c' old op' op_mem'] at installs'
      cases installs'

theorem CatchFree.quiet (free : CatchFree m.codes) (pid : Nat) : m.catchesOnFull pid = false := by
  unfold catchesOnFull
  split
  case h_2 => rfl
  split
  case h_2 => rfl
  rename_i f _
  split
  case h_2 => rfl
  rename_i op at_
  -- the instruction is one of a unit the engine holds: an empty unit has none
  have mem : op ∈ (m.codeOrEmpty f.code).instrs := Array.mem_of_getElem? at_
  unfold codeOrEmpty code? at mem
  cases found : m.codes[f.code.index]? with
  | none => simp [found, Code.empty] at mem
  | some c =>
    rw [found, Option.getD_some] at mem
    rw [free c (Array.mem_of_getElem? found) op mem, Bool.false_and]

/-- The processes have room and the units satisfy `Q`. -/
def Fits (Q : Array Code → Prop) (m : Machine) : Prop := m.Spacious ∧ Q m.codes

variable {Q : Array Code → Prop}

theorem Fits.setProc (fits : m.Fits Q) (r : q.Roomy) : (m.setProc q).Fits Q :=
  ⟨fits.1.setProc r, by rw [setProcCodes]; exact fits.2⟩

theorem Fits.ofProcs (fits : m.Fits Q) (same : m'.procs = m.procs) (codes : m'.codes = m.codes) : m'.Fits Q :=
  ⟨fits.1.ofProcs same, codes ▸ fits.2⟩

theorem Fits.setViewLocal (fits : m.Fits Q) (v : FrameView) (i : Nat) (x : Value) :
    (m.setViewLocal v i x).1.Fits Q := by
  refine ⟨fits.1.setViewLocal v i x, ?_⟩
  rcases setViewLocalEq m v i x with same | ⟨p, k, f, -, -, eq⟩
  · rw [same]; exact fits.2
  · rw [eq, setProcCodes]; exact fits.2

theorem Fits.assignName (fits : m.Fits Q) {cs : List ContextId} {name : String} {x : Value} {b : Bool}
    (assigned : m.assignName cs name x = .ok (m', b)) : m'.Fits Q :=
  assignNameReaches (fun m m' => m.Fits Q → m'.Fits Q) (fun _ h => h) (fun h₁ h₂ h => h₂ (h₁ h)) x
    (fun _ _ _ _ _ _ _ h => h.ofProcs rfl rfl) (fun _ v i h => h.setViewLocal v i x) cs m name m' b assigned fits

end Machine

namespace Exec

open Machine

variable {Q : Array Code → Prop} {pid : Nat} {α β : Type}

/-- Running `x` keeps every process's room and `Q` of the units, whatever it answers. -/
def Spares (Q : Array Code → Prop) {α : Type} (x : Exec α) : Prop :=
  ∀ m, m.Fits Q → Post x m (fun _ => Fits Q) (fun _ => Fits Q)

theorem sparesPure (a : α) : Spares Q (pure a : Exec α) := fun _ fits => fits

theorem sparesThrow (e : Fault) : Spares Q (throw e : Exec α) := fun _ fits => fits

theorem sparesThrowBind (e : Fault) (f : α → Exec β) : Spares Q (throw e >>= f) := fun _ fits => fits

theorem sparesBind {x : Exec α} {f : α → Exec β} (first : Spares Q x) (next : ∀ a, Spares Q (f a)) :
    Spares Q (x >>= f) := by
  intro m fits
  rw [postBind]
  exact (first m fits).mono (fun a m' fits' => next a m' fits') (fun _ _ h => h)

theorem sparesOfRead {x : Exec α} (reads : ∀ m, Post x m (fun _ m' => m' = m) (fun _ m' => m' = m)) :
    Spares Q x :=
  fun m fits => (reads m).mono (fun _ _ h => h ▸ fits) (fun _ _ h => h ▸ fits)

theorem sparesGet : Spares Q (get : Exec Machine) := sparesOfRead fun _ => rfl

theorem sparesLiftFault (r : Except Fault α) : Spares Q (liftFault r) :=
  sparesOfRead fun _ => by cases r <;> rfl

theorem sparesProc (q : Nat) : Spares Q (proc q) :=
  sparesOfRead fun m => by rw [postProc]; split <;> rfl

theorem sparesTopFrame (q : Nat) : Spares Q (topFrame q) :=
  sparesOfRead fun m => by rw [postTopFrame]; split <;> (try split) <;> rfl

theorem sparesPeek (q : Nat) : Spares Q (peek q) := sparesBind (sparesProc q) fun _ => sparesLiftFault _

theorem sparesIte {c : Prop} [Decidable c] {x y : Exec β} (hx : Spares Q x) (hy : Spares Q y) :
    Spares Q (if c then x else y) := by
  split
  · exact hx
  · exact hy

theorem sparesDiscard {x : Exec α} (hx : Spares Q x) : Spares Q (discard x) := fun m fits =>
  (postDiscard x).2 (hx m fits)

theorem sparesGuard {c : Prop} [Decidable c] {e : Fault} {k : Unit → Exec β} (rest : Spares Q (k ())) :
    Spares Q (if c then throw e >>= k else k ()) :=
  sparesIte (sparesThrowBind e k) rest

theorem sparesBindGet {f : Machine → Exec β}
    (next : ∀ m, m.Fits Q → Post (f m) m (fun _ => Fits Q) (fun _ => Fits Q)) : Spares Q (get >>= f) :=
  fun m fits => by
    rw [postBind, postGet]
    exact next m fits

theorem sparesBindProc {f : Process → Exec β}
    (next : ∀ m p, m.Fits Q → m.proc? pid = some p → Post (f p) m (fun _ => Fits Q) (fun _ => Fits Q)) :
    Spares Q (proc pid >>= f) := by
  intro m fits
  rw [postBind, postProc]
  split
  · rename_i p found
    exact next m p fits found
  · exact fits

theorem sparesSetProc {m : Machine} {p q : Process} (fits : m.Fits Q) (found : m.proc? pid = some p)
    (keeps : p.Roomy → q.Roomy) : Post (setProc q) m (fun _ => Fits Q) (fun _ => Fits Q) :=
  (postSetProc q).2 (fits.setProc (keeps (fits.1.find found)))

theorem sparesPush (v : Value) : Spares Q (push pid v) :=
  sparesBindProc fun m p fits found => by
    rw [postBind, postLiftFault]
    split
    · rename_i q pushed
      exact sparesSetProc fits found fun r => r.pushValue pushed
    · exact fits

theorem popRoom {m : Machine} (fits : m.Fits Q) :
    Post (pop pid) m (fun _ m' => m'.Fits Q ∧ HasRoom pid m') (fun _ => Fits Q) := by
  unfold pop
  rw [postBind, postProc]
  split
  · rename_i p found
    rw [postBind, postLiftFault]
    split
    · rename_i r popped
      obtain ⟨roomy, room⟩ := (fits.1.find found).popValue popped
      have same : r.1.id = pid := by
        obtain ⟨-, -, eq⟩ := Process.popValueOk popped
        rw [eq]
        exact (procIdOf found : p.id = pid)
      simp only [postBind, postSetProc, postPure]
      refine ⟨fits.setProc roomy, fun q found' => ?_⟩
      rw [procSetFound found same, Option.some.injEq] at found'
      exact found' ▸ room
    · exact fits
  · exact fits

theorem sparesPop : Spares Q (pop pid) := fun _ fits => (popRoom fits).mono (fun _ _ h => h.1) fun _ _ h => h

theorem sparesModifyTop (g : Frame → Frame) (keeps : ∀ f : Frame, f.Retains (g f)) :
    Spares Q (modifyTop pid g) :=
  sparesBindProc fun _ _ fits found => sparesSetProc fits found fun r => r.modifyTop g keeps

theorem sparesStoreLocal (i : Nat) (v : Value) : Spares Q (storeLocal pid i v) :=
  sparesBind (sparesTopFrame pid) fun _ => sparesIte (sparesModifyTop _ fun _ => rfl) (sparesThrow _)

theorem postGuardFits {c : Prop} [Decidable c] {e : Fault} {k : Unit → Exec β} {m : Machine} (fits : m.Fits Q)
    (rest : Post (k ()) m (fun _ => Fits Q) (fun _ => Fits Q)) :
    Post (if c then throw e >>= k else k ()) m (fun _ => Fits Q) (fun _ => Fits Q) := by
  split
  · exact fits
  · exact rest

section Relocating

-- `Q` survives relocating any one unit: entering a frame may relocate its unit
variable (relocated : ∀ (cs : Array Code) (i : Nat), Q cs → Q (cs.modify i Code.relocate))
include relocated

theorem pushFrameFits (code : CodeId) (w : Bool) {m : Machine} (fits : m.Fits Q)
    (room : w = true → HasRoom pid m) : Post (pushFrame pid code w) m (fun _ => Fits Q) (fun _ => Fits Q) := by
  unfold pushFrame
  rw [postBind, postProc]
  split
  case h_2 => exact fits
  rename_i p found
  simp only [postBind, postIte, postThrow, postGet, postSet]
  -- the unit may be relocated and a frame serial is taken: no process changes
  have moved : ∀ m' : Machine, m'.procs = m.procs → Q m'.codes →
      Post (liftFault (p.pushFrame code (m'.codeOrEmpty code).locals.size m'.nextFrame w))
        { m' with nextFrame := m'.nextFrame + 1 }
        (fun q m'' => Post (setProc q) m'' (fun _ => Fits Q) (fun _ => Fits Q)) (fun _ => Fits Q) := by
    intro m' same codes
    have fits' : ({ m' with nextFrame := m'.nextFrame + 1 } : Machine).Fits Q := ⟨fits.1.ofProcs same, codes⟩
    rw [postLiftFault]
    split
    · rename_i q pushed
      rw [postSetProc]
      exact fits'.setProc ((fits.1.find found).pushFrame pushed fun wants => room wants p found)
    · exact fits'
  split
  · exact fits
  · split
    · exact moved (m.modifyCode code Code.relocate) rfl (relocated _ _ fits.2)
    · exact moved m rfl fits.2

theorem sparesCall (args : Nat) (w : Bool) : Spares Q (call pid args w) := by
  intro m fits
  unfold call
  rw [postBind]
  refine (popRoom fits).mono (fun callee m₁ popped => ?_) fun _ _ h => h
  obtain ⟨fits₁, room₁⟩ := popped
  split
  · simp only [postBind, postPure, postGet]
    refine postGuardFits fits₁ (postGuardFits fits₁ ?_)
    rw [postBind, postProc]
    split
    · rename_i p found
      refine postGuardFits fits₁ ?_
      have less := room₁ p found
      have cut : (p.values.take (p.values.size - args)).size < p.limits.maxValues := by
        simp only [Array.take_eq_extract, Array.size_extract]; omega
      have fits₂ := fits₁.setProc ((fits₁.1.find found).values _ (Nat.le_of_lt cut))
      have room₂ : HasRoom pid (m₁.setProc { p with values := p.values.take (p.values.size - args) }) :=
        fun q found' => by
          rw [procSetFound (q := { p with values := p.values.take (p.values.size - args) }) found
            (procIdOf found : p.id = pid), Option.some.injEq] at found'
          exact found' ▸ cut
      rw [postBind, postSetProc, postBind]
      exact (pushFrameFits relocated _ w fits₂ fun _ => room₂).mono
        (fun _ m₃ fits₃ => sparesModifyTop (Frame.takeArgs _) (fun _ => rfl) m₃ fits₃) fun _ _ h => h
    · exact fits₁
  · exact fits₁

end Relocating

theorem jumpFits (c : Code) (j : Jump) {m : Machine} (fits : m.Fits Q)
    (room : j.condition = .handler → HasRoom pid m) :
    Post (jump pid c j) m (fun _ => Fits Q) (fun _ => Fits Q) := by
  unfold jump
  refine postGuardFits fits (postGuardFits fits ?_)
  split
  · rename_i installs
    rw [postBind, postProc]
    split
    · rename_i p found
      rw [postSetProc]
      exact fits.setProc ((fits.1.find found).pushHandler _ (room (beq_iff_eq.mp installs) p found))
    · exact fits
  · -- the condition only reads the top value; then an optional pop and the frame moves on
    have rest : ∀ taken : Bool, Spares Q (if j.pop = true then
        discard (pop pid) >>= fun _ =>
          if taken = true then modifyTop pid (fun f => { f with pc := j.target }) else pure ()
        else if taken = true then modifyTop pid (fun f => { f with pc := j.target })
          else pure ()) := fun taken =>
      sparesIte (sparesBind (sparesDiscard sparesPop) fun _ =>
          sparesIte (sparesModifyTop _ fun _ => rfl) (sparesPure _))
        (sparesIte (sparesModifyTop _ fun _ => rfl) (sparesPure _))
    dsimp only
    split <;> first
      | exact sparesBind (sparesPeek pid) (fun _ => sparesBind (sparesPure _) rest) m fits
      | exact sparesBind (sparesPure _) rest m fits

theorem sparesControl (k : Control) : Spares Q (control pid k) := by
  cases k with
  | uncatch =>
    refine sparesBindProc fun m p fits found => ?_
    split
    · rename_i q h popped
      rw [postBind]
      exact sparesSetProc fits found fun r => r.popHandler popped
    · exact fits
  | throw => exact sparesBind sparesPop fun _ => sparesBind sparesGet fun _ => sparesThrow _
  | terminate | suspend | stop => exact sparesPure _
  | enter =>
    refine sparesBind sparesPop fun v => ?_
    split
    · refine sparesBindProc fun m p fits found => ?_
      rw [postBind]
      exact sparesSetProc fits found fun r => (r.contexts _ _).markContextTos
    · exact sparesThrow _
  | leave =>
    refine sparesBind (sparesTopFrame pid) fun f => sparesBindProc fun m p fits found => ?_
    refine postGuardFits fits ?_
    rw [postBind]
    exact sparesSetProc fits found fun r => (r.contexts _ _).markContextTos
  | lock =>
    refine sparesBind sparesPop fun note => sparesBind sparesPop fun name => ?_
    cases name with
    | str s =>
      -- the new lock and its held reference change no process and no unit
      refine sparesBind (sparesPure _) fun _ => fun m fits => ?_
      rw [postBind, postGet, postBind, postLiftFault]
      split
      · simp only [addHold]
        rw [postBind, postSet]
        exact sparesBind (sparesPush _) (fun _ => sparesPure _) _ (fits.ofProcs rfl rfl)
      · exact fits
    | _ => exact sparesThrowBind _ _

section Instructions

variable (relocated : ∀ (cs : Array Code) (i : Nat), Q cs → Q (cs.modify i Code.relocate))
include relocated

theorem sparesInstr (c : Code) : ∀ op : Instr, op.installsHandler = false → Spares Q (instr pid c op)
  | .nop, _ | .label _, _ => sparesPure _
  | .pushLiteral i, _ => by
    dsimp only [instr]
    split
    · exact sparesBind (sparesPush _) fun _ => sparesPure _
    · exact sparesThrow _
  | .pushLocal i, _ => by
    refine sparesBind (sparesTopFrame pid) fun f => ?_
    split
    · exact sparesBind (sparesPush _) fun _ => sparesPure _
    · exact sparesThrow _
  | .storeLocal i, _ => sparesBind (sparesPeek pid) fun v => sparesBind (sparesStoreLocal i v) fun _ => sparesPure _
  | .popLocal i, _ => sparesBind sparesPop fun v => sparesBind (sparesStoreLocal i v) fun _ => sparesPure _
  | .pushName i, _ => by
    dsimp only [instr]
    split
    · refine sparesBind (sparesPure _) fun _ => sparesBind sparesGet fun _ =>
        sparesBind (sparesProc pid) fun _ => ?_
      split
      · exact sparesBind (sparesPush _) fun _ => sparesPure _
      · exact sparesThrow _
    · exact sparesThrowBind _ _
  | .storeName i, _ => by
    dsimp only [instr]
    split
    · refine sparesBind (sparesPure _) fun _ => sparesBind (sparesPeek pid) fun _ =>
        sparesBind (sparesProc pid) fun _ => sparesBindGet fun m fits => ?_
      -- an assignment writes a context, or a local through a view
      rw [postBind, postLiftFault]
      split
      · rename_i r assigned
        obtain ⟨m', done⟩ := r
        simp only [postBind, postSet, postIte, postPure, postThrow]
        split <;> exact fits.assignName assigned
      · exact fits
    · exact sparesThrowBind _ _
  | .binary op, _ =>
    sparesBind sparesPop fun _ => sparesBind sparesPop fun _ => sparesBind sparesGet fun _ =>
      sparesBind (sparesLiftFault _) fun r => sparesBind (sparesPush r) fun _ => sparesPure _
  | .unary op, _ =>
    sparesBind sparesPop fun _ => sparesBind (sparesLiftFault _) fun r =>
      sparesBind (sparesPush r) fun _ => sparesPure _
  | .drop n, _ => by
    refine sparesBindProc fun m p fits found => postGuardFits fits ?_
    rw [postBind]
    exact sparesSetProc fits found fun r =>
      r.values _ (by simp only [Array.take_eq_extract, Array.size_extract]; have := r.within; omega)
  | .dup d, _ => by
    refine sparesBind (sparesProc pid) fun _ => sparesGuard ?_
    split
    · exact sparesBind (sparesPush _) fun _ => sparesPure _
    · exact sparesThrow _
  | .jump j, quiet => fun m fits => by
    rw [instr, postBind]
    refine (jumpFits c j fits fun handler => ?_).mono (fun _ _ h => h) fun _ _ h => h
    simp [Instr.installsHandler, handler] at quiet
  | .call args w, _ => sparesBind (sparesCall relocated args w) fun _ => sparesPure _
  | .ret 0, _ => sparesPure _
  | .ret 1, _ => sparesBind sparesPop fun _ => sparesPure _
  | .ret (n + 2), _ => sparesThrow _
  | .control k, _ => sparesControl k

theorem instrFits (c : Code) (op : Instr) {m : Machine} (fits : m.Fits Q)
    (room : op.installsHandler = true → HasRoom pid m) :
    Post (instr pid c op) m (fun _ => Fits Q) (fun _ => Fits Q) := by
  cases installs : op.installsHandler
  case false => exact sparesInstr relocated c op installs m fits
  case true =>
    obtain ⟨j, rfl⟩ : ∃ j, op = .jump j := by
      cases op <;> simp_all [Instr.installsHandler]
    rw [instr, postBind]
    exact (jumpFits c j fits fun _ => room installs).mono (fun _ _ h => h) fun _ _ h => h

end Instructions

end Exec

namespace Machine

open Exec

variable {Q : Array Code → Prop} {pid : Nat} {m : Machine}

theorem stepFits (relocated : ∀ (cs : Array Code) (i : Nat), Q cs → Q (cs.modify i Code.relocate))
    (fits : m.Fits Q) (quiet : m.catchesOnFull pid = false) : (m.step pid).1.Fits Q := by
  unfold step
  dsimp only
  split
  · exact fits
  · rename_i p found
    split
    · exact fits
    · rename_i f top
      split
      · exact fits
      · rename_i op at_
        -- the instruction runs after the frame has moved on, with the same stack
        have room : op.installsHandler = true →
            HasRoom pid (m.setProc (p.modifyTop fun f => { f with pc := f.pc + 1 })) := by
          intro installs q found'
          rw [procSetFound found (by simpa using procIdOf found), Option.some.injEq] at found'
          subst found'
          simp only [catchesOnFull, found, top, at_, installs, Bool.true_and, decide_eq_false_iff_not,
            Nat.not_le] at quiet
          simpa using quiet
        have moved := fits.setProc ((fits.1.find found).modifyTop (fun f => { f with pc := f.pc + 1 }) fun _ => rfl)
        have := instrFits relocated (m.codeOrEmpty f.code) op moved room
        rwa [postState] at this


/-! What runs around the instructions: the coverage recorder, settling, returns, faults and
the end of a process. None of them changes a unit. -/

theorem Fits.modifyProc (fits : m.Fits Q) (f : Process → Process)
    (keeps : ∀ p, m.proc? pid = some p → (f p).Roomy) : (m.modifyProc pid f).Fits Q :=
  ⟨fits.1.modifyProc f keeps, by unfold Machine.modifyProc; split <;> exact fits.2⟩

theorem Fits.setStatus (fits : m.Fits Q) (pid : Nat) (status : Status) :
    (m.modifyProc pid fun p => { p with status := status }).Fits Q :=
  fits.modifyProc _ fun _ found => (fits.1.find found).ofStacks rfl rfl rfl rfl

theorem Fits.settle (fits : m.Fits Q) : m.settle.Fits Q :=
  fits.ofProcs (settleProcs m) (by unfold Machine.settle; split <;> rfl)

theorem Fits.observe (fits : m.Fits Q) (pid fuel : Nat) :
    ({ m.observe pid with budget := fuel } : Machine).Fits Q := by
  refine fits.ofProcs (observeProcs m pid) ?_
  unfold Machine.observe
  split
  · split <;> rfl
  · rfl

theorem Fits.finish (fits : m.Fits Q) (pid : Nat) (status : Status) : (m.finish pid status).Fits Q := by
  unfold Machine.finish
  split
  · exact fits
  · exact fits.setProc (Process.Roomy.ofEmpty rfl rfl rfl)

theorem Fits.failWith (fits : m.Fits Q) (pid : Nat) (message : String) : (m.failWith pid message).Fits Q := by
  unfold Machine.failWith
  split
  · exact fits
  · rename_i p found
    exact (fits.setProc ((fits.1.find found).ofStacks
      (q := { p with failure := some ⟨message, m.trace p⟩ }) rfl rfl rfl rfl)).finish pid .failed

theorem Fits.raise (fits : m.Fits Q) (pid : Nat) (fault : Fault) : (m.raise pid fault).1.Fits Q := by
  unfold Machine.raise
  split
  · exact fits
  · rename_i p found
    rcases unwound : p.unwind fault with ⟨q, caught⟩
    have r : q.Roomy := by simpa [unwound] using (fits.1.find found).unwind fault
    cases caught
    · exact (fits.setProc r).failWith pid _
    · exact fits.setProc r

theorem Fits.leaveFrame (fits : m.Fits Q) (pid : Nat) (value : Option Value) :
    (m.leaveFrame pid value).Fits Q := by
  unfold Machine.leaveFrame
  split
  · rename_i p found
    split
    · rename_i q left
      exact fits.setProc ((fits.1.find found).returnFromFrame left)
    · exact fits
  · exact fits

theorem Fits.raiseTo (fits : m.Fits Q) {fault : Fault} {caught : Bool}
    (raised : m.raise pid fault = (m', caught)) : m'.Fits Q := by
  have := fits.raise pid fault
  rwa [raised] at this

theorem Fits.keptByRun (pid : Nat) : KeptByRun (Fits CatchFree) pid where
  observed _ fuel fits := fits.observe pid fuel
  stepped fits step := by
    -- an instruction runs from a state with room, in code that installs no handler
    have := stepFits (fun _ i free => catchFreeRelocate free i) fits (CatchFree.quiet fits.2 pid)
    rwa [step] at this
  settled _ fits := fits.settle
  left _ value fits := fits.leaveFrame pid value
  raised fits raised := fits.raiseTo raised
  finished _ status fits := fits.finish pid status
  paused _ status fits := fits.setStatus pid status
  exhausted _ fits := fits.ofProcs rfl rfl

theorem executeFits (m : Machine) (pid : Nat) (temporary : Bool) (fits : m.Fits CatchFree) :
    (m.execute pid temporary).Fits CatchFree :=
  (Fits.keptByRun pid).execute temporary
    (fun _ found _ => fits.setProc ((fits.1.find found).ofStacks rfl rfl rfl rfl)) fits

/-- Room on the value stack, and with it every stack within its limit, is kept by every
instruction except a catch on a full stack, and so by every run of code that installs no
handler, which keeps installing none. -/
theorem valueStackRoomKept (m : Machine) (pid : Nat) (temporary : Bool) (spacious : m.Spacious) :
    (m.catchesOnFull pid = false → (m.step pid).1.Spacious) ∧
      (CatchFree m.codes → (m.execute pid temporary).Spacious ∧ CatchFree (m.execute pid temporary).codes) := by
  refine ⟨fun quiet => ?_, fun free => executeFits m pid temporary ⟨spacious, free⟩⟩
  exact (stepFits (Q := fun _ => True) (fun _ _ _ => trivial) ⟨spacious, trivial⟩ quiet).1

/-- A unit that pushes past its limit with no handler: the overflow fails the process, whose
stacks are emptied. -/
theorem uncaughtOverflowKeepsRoom :
    let unit : Code :=
      { instrs := #[.pushLiteral 0, .pushLiteral 0, .control .suspend], literals := #[.int 5] }
    let empty : Machine := { codes := #[unit], config := { limits := { maxFrames := 10, maxValues := 1 } } }
    let start : Machine := ((Exec.pushFrame 1 ⟨0⟩ false).run (empty.create "p").1).2
    (start.run 1).Spacious ∧ CatchFree (start.run 1).codes := by
  intro unit empty start
  exact (valueStackRoomKept start 1 false (by decide +kernel)).2 (by decide +kernel)

/-- A catch on a full stack: with room for one value, a unit pushes one and installs a
handler, and its next push overflows. The handler takes the fault and pushes its message on
top of the value, leaving two values on a stack that holds one. -/
theorem catchOnFullStackOverflows :
    let unit : Code :=
      { instrs := #[.pushLiteral 0, .jump ⟨.handler, false, false, 3⟩, .pushLiteral 0, .control .suspend],
        literals := #[.int 5] }
    let empty : Machine := { codes := #[unit], config := { limits := { maxFrames := 10, maxValues := 1 } } }
    let start : Machine := ((Exec.pushFrame 1 ⟨0⟩ false).run (empty.create "p").1).2
    start.Spacious ∧ (start.step 1).1.catchesOnFull 1 = true ∧
      ((start.run 1).proc? 1).map (fun p => (p.values.size, p.limits.maxValues)) = some (2, 1) := by
  decide +kernel

end Machine

end ScriptEngine
