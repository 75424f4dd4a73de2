import ScriptEngine.Proofs.Settling
import ScriptEngine.Proofs.StackRoom
/-!
Which values stay live. A lock value is live while its held reference is live and belongs
to its lock, a context value while its context lives. `Machine.Lifetime` says that every
value the engine holds is live and that every context something living refers to lives.
The changes an instruction, a return, a fault or the end of a process make to a process
only move values it already held or add live ones (`Process.Draws`), so they keep the
lifetime; writing a context keeps it when the value written is live, and settling keeps
it. After settling every live held reference is held (`Machine.Settled`).
-/
namespace ScriptEngine

namespace Process

/-- The values a process holds: its value stack, its frames' locals and its result. -/
def held (p : Process) : List Value :=
  p.values.toList ++ (p.frames.toList.flatMap fun f => f.locals.toList) ++ p.result.toList

variable {p q r : Process} {v x : Value} {fresh fresh' : Value → Prop}

theorem memHeld : v ∈ p.held ↔ v ∈ p.values ∨ (∃ f ∈ p.frames, v ∈ f.locals) ∨ p.result = some v := by
  simp [held]

theorem heldOfValue (mem : v ∈ p.values) : v ∈ p.held := memHeld.mpr (.inl mem)

theorem heldOfLocal {f : Frame} (frame : f ∈ p.frames) (mem : v ∈ f.locals) : v ∈ p.held :=
  memHeld.mpr (.inr (.inl ⟨f, frame, mem⟩))

theorem heldOfResult (result : p.result = some v) : v ∈ p.held := memHeld.mpr (.inr (.inr result))

/-- Every value `q` holds on its stack, in a local or as its result is one `p` holds or one
`fresh` admits, and `q` is in no context `p` is not in. -/
structure Draws (p q : Process) (fresh : Value → Prop) : Prop where
  values : ∀ v ∈ q.values, v ∈ p.held ∨ fresh v
  locals : ∀ f ∈ q.frames, ∀ v ∈ f.locals, v ∈ p.held ∨ fresh v
  result : ∀ v, q.result = some v → v ∈ p.held ∨ fresh v
  contexts : ∀ d ∈ q.contexts, d ∈ p.contexts

theorem Draws.held (draws : p.Draws q fresh) (mem : v ∈ q.held) : v ∈ p.held ∨ fresh v := by
  rcases memHeld.mp mem with value | ⟨f, frame, loc⟩ | result
  · exact draws.values v value
  · exact draws.locals f frame v loc
  · exact draws.result v result

theorem Draws.mono (draws : p.Draws q fresh) (weaker : ∀ v, fresh v → fresh' v) : p.Draws q fresh' :=
  ⟨fun v mem => (draws.values v mem).imp_right (weaker v), fun f frame v mem => (draws.locals f frame v mem).imp_right
    (weaker v), fun v res => (draws.result v res).imp_right (weaker v), draws.contexts⟩

theorem Draws.trans (first : p.Draws q fresh) (second : q.Draws r fresh') :
    p.Draws r fun v => fresh v ∨ fresh' v := by
  have back : ∀ v, v ∈ q.held ∨ fresh' v → v ∈ p.held ∨ fresh v ∨ fresh' v := by
    rintro v (held | new)
    · exact (first.held held).imp_right .inl
    · exact .inr (.inr new)
  exact ⟨fun v mem => back v (second.values v mem), fun f frame v mem => back v (second.locals f frame v mem),
    fun v res => back v (second.result v res), fun d mem => first.contexts d (second.contexts d mem)⟩

theorem drawsOf (values : ∀ v ∈ q.values, v ∈ p.values ∨ fresh v)
    (frames : ∀ f ∈ q.frames, ∃ g ∈ p.frames, f.locals = g.locals) (result : q.result = p.result)
    (contexts : ∀ d ∈ q.contexts, d ∈ p.contexts) : p.Draws q fresh where
  values v mem := (values v mem).imp_left heldOfValue
  locals f frame v mem := by
    obtain ⟨g, old, same⟩ := frames f frame
    exact .inl (heldOfLocal old (same ▸ mem))
  result v res := .inl (heldOfResult (result ▸ res))
  contexts := contexts

theorem drawsSame (values : q.values = p.values) (frames : q.frames = p.frames) (result : q.result = p.result)
    (contexts : q.contexts = p.contexts) : p.Draws q fresh :=
  drawsOf (fun _ mem => .inl (values ▸ mem)) (fun f mem => ⟨f, frames ▸ mem, rfl⟩) result
    fun _ mem => contexts ▸ mem

theorem drawsRefl (p : Process) : p.Draws p fresh := drawsSame rfl rfl rfl rfl

theorem drawsPushValue (pushed : p.pushValue x = .ok q) : p.Draws q (· = x) := by
  unfold pushValue at pushed
  split at pushed
  · cases pushed
  · cases pushed
    refine drawsOf (fun v mem => ?_) (fun f mem => ⟨f, mem, rfl⟩) rfl fun _ mem => mem
    exact Array.mem_push.mp mem

theorem drawsPopValue (popped : p.popValue = .ok (q, v)) : p.Draws q fresh ∧ v ∈ p.held := by
  obtain ⟨-, back, rfl⟩ := popValueOk popped
  exact ⟨drawsOf (fun _ mem => .inl (memPop mem)) (fun f mem => ⟨f, mem, rfl⟩) rfl fun _ mem => mem,
    heldOfValue (Array.mem_of_back? back)⟩

theorem peekedHeld (peeked : p.peekValue = .ok v) : v ∈ p.held := by
  unfold peekValue at peeked
  split at peeked
  · cases peeked
  · split at peeked
    · rename_i w back
      cases peeked
      exact heldOfValue (Array.mem_of_back? back)
    · cases peeked

theorem drawsModifyTop (g : Frame → Frame) (locals : ∀ f, ∀ v ∈ (g f).locals, v ∈ f.locals ∨ fresh v) :
    p.Draws (p.modifyTop g) fresh := by
  unfold modifyTop
  split
  · rename_i top back
    refine ⟨fun v mem => .inl (heldOfValue mem), fun f frame v mem => ?_, fun v res => .inl (heldOfResult res),
      fun _ mem => mem⟩
    rcases Array.mem_push.mp frame with old | rfl
    · exact .inl (heldOfLocal (memPop old) mem)
    · exact (locals top v mem).imp_left (heldOfLocal (Array.mem_of_back? back))
  · exact drawsRefl p

theorem drawsPushFrame {code : CodeId} {n serial : Nat} {w : Bool} (pushed : p.pushFrame code n serial w = .ok q) :
    p.Draws q (· = .empty) := by
  obtain ⟨-, rfl⟩ := pushFrameOk pushed
  refine ⟨fun v mem => .inl (heldOfValue mem), fun f frame v mem => ?_, fun v res => .inl (heldOfResult res),
    fun _ mem => mem⟩
  rcases Array.mem_push.mp frame with old | rfl
  · exact .inl (heldOfLocal old mem)
  · exact .inr (Array.mem_replicate.mp mem).2

theorem returnFromFrameHands {value : Option Value} (left : p.returnFromFrame value = some q) :
    ∃ f w, p.frames.back? = some f ∧ (w ∈ p.values ∨ value = some w ∨ w = .empty) ∧
      q.frames = p.frames.pop ∧ q.contexts = p.contexts.take f.contextSp ∧
      ((q.values = p.values.take f.valueSp ∨ q.values = (p.values.take f.valueSp).push w) ∧
          q.result = p.result ∨ q.values = p.values.take f.valueSp ∧ q.result = some w) := by
  unfold returnFromFrame at left
  cases top : p.frames.back? with
  | none => simp [top] at left
  | some f =>
    simp only [top, bind, Option.bind] at left
    generalize handed : Option.getD _ Value.empty = w at left
    refine ⟨f, w, rfl, ?_, ?_⟩
    · cases value with
      | some v =>
        simp only [Option.getD_some] at handed
        exact .inr (.inl (congrArg some handed))
      | none =>
        simp only at handed
        split at handed
        · cases back : p.values.back? with
          | none => simp [back] at handed; exact .inr (.inr handed.symm)
          | some v => simp only [back, Option.getD_some] at handed; exact .inl (handed ▸ Array.mem_of_back? back)
        · exact .inr (.inr handed.symm)
    · split at left
      · split at left <;> cases left
        · exact ⟨rfl, rfl, .inr ⟨rfl, rfl⟩⟩
        · exact ⟨rfl, rfl, .inl ⟨.inr rfl, rfl⟩⟩
      · cases left
        exact ⟨rfl, rfl, .inl ⟨.inl rfl, rfl⟩⟩

theorem drawsReturn {value : Option Value} (left : p.returnFromFrame value = some q) :
    p.Draws q fun v => value = some v ∨ v = .empty := by
  obtain ⟨f, w, top, handed, frames, contexts, shape⟩ := returnFromFrameHands left
  have kept : w ∈ p.held ∨ value = some w ∨ w = .empty := handed.imp_left heldOfValue
  refine ⟨fun v mem => ?_, fun g frame v mem => .inl (heldOfLocal (memPop (frames ▸ frame)) mem),
    fun v res => ?_, fun d mem => memTake (contexts ▸ mem)⟩
  · rcases shape with ⟨cut | pushed, -⟩ | ⟨cut, -⟩
    · exact .inl (heldOfValue (memTake (cut ▸ mem)))
    · rcases Array.mem_push.mp (pushed ▸ mem) with old | rfl
      · exact .inl (heldOfValue (memTake old))
      · exact kept
    · exact .inl (heldOfValue (memTake (cut ▸ mem)))
  · rcases shape with ⟨-, same⟩ | ⟨-, same⟩
    · exact .inl (heldOfResult (same ▸ res))
    · rw [same, Option.some.injEq] at res
      exact res ▸ kept

theorem drawsUnwindGo (fault : Fault) : ∀ (fuel : Nat) (p : Process),
    p.Draws (unwind.go fault fuel p).1 (· = .str fault.message)
  | 0, p => drawsRefl p
  | fuel + 1, p => by
    unfold unwind.go
    split
    · exact drawsRefl p
    · rename_i h back
      have popped : p.Draws { p with handlers := p.handlers.pop } (· = .str fault.message) :=
        drawsSame rfl rfl rfl rfl
      dsimp only
      split
      · exact (popped.trans (drawsUnwindGo fault fuel _)).mono fun _ same => same.elim (fun h => h) fun h => h
      · have message : ∀ v ∈ (p.values.take h.valueSp).push (.str fault.message),
            v ∈ p.values ∨ v = .str fault.message := fun v mem =>
          (Array.mem_push.mp mem).imp_left memTake
        split
        · rename_i f top
          refine drawsOf message (fun g mem => ?_) rfl fun d mem => memTake mem
          rcases Array.mem_push.mp mem with old | rfl
          · exact ⟨g, memTake (memPop old), rfl⟩
          · exact ⟨f, memTake (Array.mem_of_back? top), rfl⟩
        · exact drawsOf message (fun g mem => ⟨g, memTake mem, rfl⟩) rfl fun d mem => memTake mem

theorem drawsUnwind (fault : Fault) : p.Draws (p.unwind fault).1 (· = .str fault.message) :=
  drawsUnwindGo fault _ p

theorem drawsPushHandler (pc : Nat) : p.Draws (p.pushHandler pc) fresh := drawsSame rfl rfl rfl rfl

theorem drawsPopHandler {h : Handler} (popped : p.popHandler = some (q, h)) : p.Draws q fresh := by
  rw [(popHandlerSome popped).2.2]
  exact drawsSame rfl rfl rfl rfl

theorem drawsMarkContextTos (p : Process) : p.Draws p.markContextTos.1 fresh := by
  have retop : p.Draws (p.modifyTop fun f => { f with contextTos := p.contexts.size }) fresh :=
    drawsModifyTop _ fun _ _ mem => .inl mem
  exact ⟨retop.values, retop.locals, retop.result, retop.contexts⟩

theorem drawsPopContext (p : Process) : p.Draws p.popContext.1 fresh :=
  drawsOf (fun _ mem => .inl mem) (fun f mem => ⟨f, mem, rfl⟩) rfl fun _ mem => memPop mem

theorem drawsTake (k : Nat) : p.Draws { p with values := p.values.take k } fresh :=
  drawsOf (fun _ mem => .inl (memTake mem)) (fun f mem => ⟨f, mem, rfl⟩) rfl fun _ mem => mem

theorem drawsSetLocal {k i : Nat} {f : Frame} (found : p.frames[k]? = some f) (x : Value) :
    p.Draws { p with frames := p.frames.set! k { f with locals := f.locals.set! i x } } (· = x) := by
  refine ⟨fun v mem => .inl (heldOfValue mem), fun g frame v mem => ?_, fun v res => .inl (heldOfResult res),
    fun _ mem => mem⟩
  rcases memSet frame with old | rfl
  · exact .inl (heldOfLocal old mem)
  · exact (memSet mem).imp_left (heldOfLocal (Array.mem_of_getElem? found))

theorem drawsEmptied (values : q.values = #[]) (frames : q.frames = #[]) (result : q.result = p.result)
    (contexts : q.contexts = #[]) : p.Draws q fresh :=
  drawsOf (fun _ mem => by simp [values] at mem) (fun _ mem => by simp [frames] at mem) result
    fun _ mem => by simp [contexts] at mem

end Process

namespace Machine

open Process

variable {m m' m'' : Machine} {pid : Nat} {p q : Process} {v x : Value} {fresh : Value → Prop}

theorem memRootValues : v ∈ m.rootValues ↔ (∃ c ∈ m.codes, v ∈ c.literals) ∨ ∃ p ∈ m.procs, v ∈ p.held := by
  simp only [rootValues, held, List.mem_append, List.mem_flatMap, Array.mem_toList_iff]

/-- A lock value is live while its held reference is live and belongs to its lock, a context
value while its context lives; other values always are. -/
def ValueLive (m : Machine) : Value → Prop
  | .context c => m.Living c.index
  | .lock h mu => ∃ hold, m.holds[h.index]? = some hold ∧ hold.live = true ∧ hold.mutex = mu
  | _ => True

/-- Everything a process holds is live and every context it is in lives. -/
def ProcLive (m : Machine) (p : Process) : Prop :=
  (∀ v ∈ p.held, m.ValueLive v) ∧ ∀ d ∈ p.contexts, m.Living d.index

/-- Lifetimes as the engine keeps them: every value it holds is live, every context something
living refers to lives, each context has its flag, and the lock table is sound. -/
structure Lifetime (m : Machine) : Prop where
  held : ∀ v, m.Holds v → m.ValueLive v
  kept : ∀ d, m.Kept d → m.Living d.index
  sized : m.contextLive.size = m.contexts.size
  locks : m.locks.Sound

/-- `m'` keeps every live value of `m` live and every tracked lock tracked. -/
structure Grows (m m' : Machine) : Prop where
  values : ∀ v, m.ValueLive v → m'.ValueLive v
  tracked : ∀ id, m.Tracked id → m'.Tracked id

/-- Every live held reference is held, as settling leaves them. -/
def Settled (m : Machine) : Prop :=
  ∀ (i : Nat) (h : Hold), m.holds[i]? = some h → h.live = true → ∃ mu, m.Holds (.lock ⟨i⟩ mu)

/-- `m'` has the literals, contexts, held references and locks of `m`: it differs from `m` at
most in its processes and in what lifetimes do not read. -/
structure Beside (m m' : Machine) : Prop where
  literals : ∀ c ∈ m'.codes, ∃ c₀ ∈ m.codes, c.literals = c₀.literals
  contexts : m'.contexts = m.contexts
  contextLive : m'.contextLive = m.contextLive
  hostContexts : m'.hostContexts = m.hostContexts
  holds : m'.holds = m.holds
  locks : m'.locks = m.locks

theorem valueLiveCongr (holds : m'.holds = m.holds) (live : m'.contextLive = m.contextLive) (v : Value) :
    m'.ValueLive v ↔ m.ValueLive v := by
  cases v <;> simp [ValueLive, Living, holds, live]

theorem trackedCongr (holds : m'.holds = m.holds) (locks : m'.locks = m.locks) (id : MutexId) :
    m'.Tracked id ↔ m.Tracked id := by
  constructor <;> rintro ⟨counted, revived⟩
  · exact ⟨by rwa [holds, locks] at counted, by rwa [locks] at revived⟩
  · exact ⟨by rwa [holds, locks], by rwa [locks]⟩

theorem Grows.refl (m : Machine) : m.Grows m := ⟨fun _ live => live, fun _ tracked => tracked⟩

theorem Grows.trans (first : m.Grows m') (second : m'.Grows m'') : m.Grows m'' :=
  ⟨fun v live => second.values v (first.values v live), fun id tracked => second.tracked id (first.tracked id tracked)⟩

theorem growsOfSame (holds : m'.holds = m.holds) (live : m'.contextLive = m.contextLive)
    (locks : m'.locks = m.locks) : m.Grows m' :=
  ⟨fun v alive => (valueLiveCongr holds live v).mpr alive, fun id tracked => (trackedCongr holds locks id).mpr tracked⟩

theorem Beside.grows (beside : Beside m m') : m.Grows m' := growsOfSame beside.holds beside.contextLive beside.locks

theorem sameLiterals (codes : m'.codes = m.codes) : ∀ c ∈ m'.codes, ∃ c₀ ∈ m.codes, c.literals = c₀.literals :=
  fun c mem => ⟨c, codes ▸ mem, rfl⟩

theorem besideModifyProc (m : Machine) (pid : Nat) (f : Process → Process) : Beside m (m.modifyProc pid f) := by
  rw [modifyProcFirst]
  exact ⟨sameLiterals rfl, rfl, rfl, rfl, rfl, rfl⟩

theorem Lifetime.procLive (life : m.Lifetime) (mem : p ∈ m.procs) : m.ProcLive p :=
  ⟨fun v held => life.held v (.inl (memRootValues.mpr (.inr ⟨p, mem, held⟩))),
    fun d inside => life.kept d (.inl (.inr (.inr ⟨p, mem, inside⟩)))⟩

theorem Lifetime.found (life : m.Lifetime) (found : m.proc? pid = some p) : m.ProcLive p :=
  life.procLive (Array.mem_of_find?_eq_some found)

theorem Lifetime.literal (life : m.Lifetime) {c : Code} (code : c ∈ m.codes) (lit : v ∈ c.literals) :
    m.ValueLive v :=
  life.held v (.inl (memRootValues.mpr (.inl ⟨c, code, lit⟩)))

theorem Lifetime.beside (life : m.Lifetime) (beside : Beside m m')
    (procs : ∀ q ∈ m'.procs, q ∈ m.procs ∨ m.ProcLive q) : m'.Lifetime := by
  have living : ∀ j, m'.Living j ↔ m.Living j := fun j => by rw [Living, Living, beside.contextLive]
  have roots : ∀ v ∈ m'.rootValues, m.ValueLive v := by
    intro v root
    rcases memRootValues.mp root with ⟨c, code, lit⟩ | ⟨q, inside, held⟩
    · obtain ⟨c₀, old, same⟩ := beside.literals c code
      exact life.literal old (same ▸ lit)
    · rcases procs q inside with old | alive
      · exact (life.procLive old).1 v held
      · exact alive.1 v held
  refine ⟨fun v holds => ?_, fun d kept => ?_, ?_, beside.locks ▸ life.locks⟩
  · rw [valueLiveCongr beside.holds beside.contextLive]
    rcases holds with root | ⟨j, c, found, alive, mem⟩
    · exact roots v root
    · exact life.held v (.inr ⟨j, c, beside.contexts ▸ found, (living j).mp alive, mem⟩)
  · rw [living]
    rcases kept with (root | host | ⟨q, inside, mem⟩) | ⟨j, c, found, alive, refers⟩
    · exact roots _ root
    · exact life.kept d (.inl (.inr (.inl (beside.hostContexts ▸ host))))
    · rcases procs q inside with old | alive
      · exact life.kept d (.inl (.inr (.inr ⟨q, old, mem⟩)))
      · exact alive.2 d mem
    · exact life.kept d (.inr ⟨j, c, beside.contexts ▸ found, (living j).mp alive, refers⟩)
  · rw [beside.contextLive, beside.contexts]
    exact life.sized

theorem ProcLive.draws (alive : m.ProcLive p) (draws : p.Draws q fresh) (new : ∀ v, fresh v → m.ValueLive v) :
    m.ProcLive q :=
  ⟨fun v mem => (draws.held mem).elim (alive.1 v) (new v), fun d mem => alive.2 d (draws.contexts d mem)⟩

theorem Lifetime.modifyProc (life : m.Lifetime) (pid : Nat) (f : Process → Process)
    (keeps : ∀ p, m.proc? pid = some p → m.ProcLive (f p)) : (m.modifyProc pid f).Lifetime := by
  refine life.beside (besideModifyProc m pid f) fun q inside => ?_
  rw [modifyProcFirst] at inside
  rcases memModifyFirst f (List.mem_toArray.mp inside) with old | ⟨p, found, rfl⟩
  · exact .inl (Array.mem_toList_iff.mp old)
  · exact .inr (keeps p (by rw [proc?, ← Array.find?_toList]; exact found))

theorem Lifetime.setProc (life : m.Lifetime) (alive : m.ProcLive q) : (m.setProc q).Lifetime :=
  life.modifyProc q.id _ fun _ _ => alive

theorem Lifetime.setFound (life : m.Lifetime) (found : m.proc? pid = some p) (draws : p.Draws q fresh)
    (new : ∀ v, fresh v → m.ValueLive v) : (m.setProc q).Lifetime :=
  life.setProc ((life.found found).draws draws new)

theorem growsSetProc (m : Machine) (q : Process) : m.Grows (m.setProc q) :=
  (besideModifyProc m q.id _).grows

/-! Held values survive changes to a process that keep what it held. -/

theorem keptModifyFirst (f : Process → Process) {a : Process} :
    ∀ {l : List Process}, a ∈ l →
      a ∈ modifyFirst pid f l ∨ l.find? (fun p => p.id == pid) = some a ∧ f a ∈ modifyFirst pid f l
  | b :: l, mem => by
    by_cases hb : b.id = pid
    · rcases List.mem_cons.mp mem with rfl | mem
      · exact .inr ⟨by simp [hb], by simp [modifyFirst, hb]⟩
      · exact .inl (by simp [modifyFirst, hb, mem])
    · rcases List.mem_cons.mp mem with rfl | mem
      · exact .inl (by simp [modifyFirst, hb])
      · rcases keptModifyFirst f mem with kept | ⟨found, new⟩
        · exact .inl (by simp [modifyFirst, hb, kept])
        · exact .inr ⟨by simp [hb, found], by simp [modifyFirst, hb, new]⟩

theorem holdsModifyProc (f : Process → Process) (keeps : ∀ p, m.proc? pid = some p → ∀ v ∈ p.held, v ∈ (f p).held)
    (holds : m.Holds v) : (m.modifyProc pid f).Holds v := by
  have beside := besideModifyProc m pid f
  rcases holds with root | ⟨j, c, found, alive, mem⟩
  · refine .inl (memRootValues.mpr ?_)
    rw [modifyProcFirst]
    rcases memRootValues.mp root with ⟨c, code, lit⟩ | ⟨p, inside, held⟩
    · exact .inl ⟨c, code, lit⟩
    · rcases keptModifyFirst f (Array.mem_toList_iff.mpr inside) with kept | ⟨found, new⟩
      · exact .inr ⟨p, List.mem_toArray.mpr kept, held⟩
      · exact .inr ⟨f p, List.mem_toArray.mpr new,
          keeps p (by rw [proc?, ← Array.find?_toList]; exact found) v held⟩
  · exact .inr ⟨j, c, beside.contexts ▸ found, by rwa [Living, beside.contextLive], mem⟩

theorem Settled.modifyProc (settled : m.Settled) (f : Process → Process)
    (keeps : ∀ p, m.proc? pid = some p → ∀ v ∈ p.held, v ∈ (f p).held) : (m.modifyProc pid f).Settled := by
  intro i h found live
  rw [(besideModifyProc m pid f).holds] at found
  obtain ⟨mu, holds⟩ := settled i h found live
  exact ⟨mu, holdsModifyProc f keeps holds⟩

/-! Settling. -/

theorem settleContextsSize (m : Machine) (roots : List ContextId) :
    ∀ (fuel : Nat) (alive : Array Bool), alive.size = m.contexts.size →
      (m.settleContexts roots fuel alive).size = m.contexts.size
  | 0, _, sized => sized
  | fuel + 1, alive, sized => by
    have next : (m.stillReferred roots alive).size = m.contexts.size := by
      simp [stillReferred, markAllSize, sized]
    unfold settleContexts
    dsimp only
    split
    · exact sized
    · exact settleContextsSize m roots fuel _ next

theorem settleSettled (m : Machine) : m.settle.Settled := by
  intro i h found live
  obtain ⟨h₀, old⟩ : ∃ h₀, m.holds[i]? = some h₀ := by
    rw [settleHoldsGet] at found
    obtain ⟨h₀, old, -⟩ := Option.map_eq_some_iff.mp found
    exact ⟨h₀, old⟩
  obtain ⟨h', found', -, alive⟩ := settleHoldLive m old
  rw [found', Option.some.injEq] at found
  exact (alive.mp (found ▸ live)).2

theorem Lifetime.settle (life : m.Lifetime) : m.settle.Lifetime := by
  cases live : m.holds.any (·.live)
  · rw [settleIdle live]
    exact life
  -- what settling keeps was held or kept before
  have holds : ∀ v, m.settle.Holds v → m.Holds v := by
    intro v held
    rcases (settleHolds live v).mp held with root | ⟨j, c, found, alive, mem⟩
    · exact .inl root
    · exact .inr ⟨j, c, found, settleContextsBelow m _ _ _ j alive, mem⟩
  have kept : ∀ d, m.settle.Kept d → m.Kept d := by
    rintro d (root | ⟨j, c, found, alive, refers⟩)
    · exact .inl ((settleRooted m d).mp root)
    · rw [settleContextsSame] at found
      exact .inr ⟨j, c, found, ((settleLiving life.sized live j).mp alive).1, refers⟩
  refine ⟨fun v held => ?_, fun d k => ?_, ?_, settleSound life.locks⟩
  · have before := life.held v (holds v held)
    cases v with
    | context c =>
      refine (settleLiving life.sized live c.index).mpr ⟨before, ?_⟩
      rcases held with root | ⟨j, ctx, found, alive, mem⟩
      · exact .inl (.inl root)
      · exact .inr ⟨j, ctx, found, alive, (memRefersTo ctx c).mpr (.inl mem)⟩
    | lock h mu =>
      obtain ⟨hold, found, alive, mutex⟩ := before
      obtain ⟨h', found', same, liveIff⟩ := settleHoldLive m found
      exact ⟨h', found', liveIff.mpr ⟨alive, mu, held⟩, same.trans mutex⟩
    | _ => trivial
  · exact (settleLiving life.sized live d.index).mpr ⟨life.kept d (kept d k), k⟩
  · rw [settleLive live]
    exact settleContextsSize m _ _ _ life.sized

/-! Writing contexts and locals. -/

theorem setContextFound {id : ContextId} {c c' : Context} {j : Nat}
    (found : (m.setContext id c').contexts[j]? = some c) :
    j = id.index ∧ c = c' ∨ j ≠ id.index ∧ m.contexts[j]? = some c := by
  simp only [setContext, Array.set!_eq_setIfInBounds, Array.getElem?_setIfInBounds] at found
  by_cases same : id.index = j
  · subst same
    simp only [if_true] at found
    split at found
    · exact .inl ⟨rfl, (Option.some.inj found).symm⟩
    · cases found
  · rw [if_neg same] at found
    exact .inr ⟨Ne.symm same, found⟩

theorem assignValues {b b' : Bindings} {n : String} (assigned : b.assign? n x = some b') :
    ∀ w ∈ (Context.bindings b').values, w ∈ (Context.bindings b).values ∨ w = x := by
  unfold Bindings.assign? at assigned
  split at assigned
  · rename_i bound
    cases assigned
    simp only [Bindings.define, bound, if_true, Context.values, List.map_map, List.mem_map]
    rintro w ⟨⟨k, w'⟩, mem, rfl⟩
    by_cases same : k = n
    · exact .inr (by simp [same])
    · exact .inl ⟨(k, w'), mem, by simp [same]⟩
  · cases assigned

theorem Lifetime.setBindings (life : m.Lifetime) {id : ContextId} {b b' : Bindings}
    (found : m.context? id = some (.bindings b))
    (values : ∀ w ∈ (Context.bindings b').values, w ∈ (Context.bindings b).values ∨ m.ValueLive w) :
    (m.setContext id (.bindings b')).Lifetime := by
  -- the written context holds what it held or live values; every other context is as it was
  have moved : ∀ j c, (m.setContext id (.bindings b')).contexts[j]? = some c → m.Living j →
      ∀ w ∈ c.values, m.Holds w ∨ m.ValueLive w := by
    intro j c written alive w mem
    rcases setContextFound written with ⟨rfl, rfl⟩ | ⟨-, old⟩
    · exact (values w mem).imp_left fun held => .inr ⟨id.index, _, found, alive, held⟩
    · exact .inl (.inr ⟨j, c, old, alive, mem⟩)
  refine ⟨fun v held => ?_, fun d kept => ?_, ?_, life.locks⟩
  · rcases held with root | ⟨j, c, written, alive, mem⟩
    · exact life.held v (.inl root)
    · exact (moved j c written alive v mem).elim (life.held v) fun live => live
  · rcases kept with root | ⟨j, c, written, alive, refers⟩
    · exact life.kept d (.inl root)
    · rcases (memRefersTo c d).mp refers with mem | ⟨view, rfl, visible⟩
      · exact (moved j _ written alive _ mem).elim (life.held _) fun live => live
      · -- a view is not written
        rcases setContextFound written with ⟨-, contra⟩ | ⟨-, old⟩
        · cases contra
        · exact life.kept d (.inr ⟨j, _, old, alive, (memRefersTo _ d).mpr (.inr ⟨view, rfl, visible⟩)⟩)
  · simp [setContext, life.sized]

theorem Lifetime.setViewLocal (life : m.Lifetime) (view : FrameView) (i : Nat) (live : m.ValueLive x) :
    (m.setViewLocal view i x).1.Lifetime := by
  rcases setViewLocalEq m view i x with same | ⟨p, k, f, found, at_, eq⟩
  · rw [same]
    exact life
  · rw [eq]
    exact life.setFound found (drawsSetLocal at_ x) fun _ same => same ▸ live

theorem growsSetViewLocal (m : Machine) (view : FrameView) (i : Nat) (x : Value) :
    m.Grows (m.setViewLocal view i x).1 := by
  rcases setViewLocalEq m view i x with same | ⟨p, k, f, -, -, eq⟩
  · rw [same]
    exact .refl m
  · rw [eq]
    exact growsSetProc m _

theorem Lifetime.assignName (life : m.Lifetime) (live : m.ValueLive x) {cs : List ContextId} {name : String}
    {done : Bool} (assigned : m.assignName cs name x = .ok (m', done)) : m'.Lifetime ∧ m.Grows m' :=
  assignNameReaches (fun m m' => m.Lifetime → m.ValueLive x → m'.Lifetime ∧ m.Grows m')
    (fun m life _ => ⟨life, .refl m⟩)
    (fun first second life live =>
      have ⟨life₁, grows₁⟩ := first life live
      have ⟨life₂, grows₂⟩ := second life₁ (grows₁.values x live)
      ⟨life₂, grows₁.trans grows₂⟩) x
    (fun _ _ _ _ _ found assigned life live =>
      ⟨life.setBindings found fun w mem => (assignValues assigned w mem).imp_right fun (same : w = x) => same ▸ live,
        growsOfSame rfl rfl rfl⟩)
    (fun m view i life live => ⟨life.setViewLocal view i live, growsSetViewLocal m view i x⟩)
    cs m name m' done assigned life live

/-! The parts of a run around its instructions. -/

theorem Lifetime.setStatus (life : m.Lifetime) (pid : Nat) (status : Status) :
    (m.modifyProc pid fun p => { p with status := status }).Lifetime :=
  life.modifyProc pid (fun p => { p with status := status }) fun p found => (life.found found : m.ProcLive p)

theorem Settled.setStatus (settled : m.Settled) (pid : Nat) (status : Status) :
    (m.modifyProc pid fun p => { p with status := status }).Settled :=
  settled.modifyProc (fun p => { p with status := status }) fun _ _ _ held => held

theorem Lifetime.finish (life : m.Lifetime) (pid : Nat) (status : Status) : (m.finish pid status).Lifetime := by
  unfold Machine.finish
  split
  · exact life
  · rename_i p found
    exact life.setFound found (drawsEmptied rfl rfl rfl rfl) fun _ (no : False) => no.elim

theorem Lifetime.failWith (life : m.Lifetime) (pid : Nat) (message : String) :
    (m.failWith pid message).Lifetime := by
  unfold Machine.failWith
  split
  · exact life
  · rename_i p found
    refine Lifetime.finish ?_ pid .failed
    exact life.setFound found (drawsSame rfl rfl rfl rfl) fun _ (no : False) => no.elim

theorem Lifetime.raise (life : m.Lifetime) (pid : Nat) (fault : Fault) : (m.raise pid fault).1.Lifetime := by
  unfold Machine.raise
  split
  · exact life
  · rename_i p found
    rcases unwound : p.unwind fault with ⟨q, caught⟩
    have draws := drawsUnwind (p := p) fault
    rw [unwound] at draws
    have alive : m.ProcLive q := (life.found found).draws draws fun _ same => by subst same; trivial
    cases caught
    · exact (life.setProc alive).failWith pid _
    · exact life.setProc alive

theorem Lifetime.raiseTo (life : m.Lifetime) {fault : Fault} {caught : Bool}
    (raised : m.raise pid fault = (m', caught)) : m'.Lifetime := by
  have := life.raise pid fault
  rwa [raised] at this

theorem Lifetime.leaveFrame (life : m.Lifetime) (pid : Nat) {value : Option Value}
    (live : ∀ v, value = some v → m.ValueLive v) : (m.leaveFrame pid value).Lifetime := by
  unfold Machine.leaveFrame
  split
  · rename_i p found
    split
    · rename_i q left
      exact life.setFound found (drawsReturn left) fun v new =>
        new.elim (live v) fun same => by subst same; trivial
    · exact life
  · exact life

theorem besideObserve (m : Machine) (pid fuel : Nat) : Beside m ({ m.observe pid with budget := fuel } : Machine) := by
  unfold observe
  split
  · split <;> exact ⟨sameLiterals rfl, rfl, rfl, rfl, rfl, rfl⟩
  · exact ⟨sameLiterals rfl, rfl, rfl, rfl, rfl, rfl⟩

theorem Lifetime.observe (life : m.Lifetime) (pid fuel : Nat) :
    ({ m.observe pid with budget := fuel } : Machine).Lifetime :=
  life.beside (besideObserve m pid fuel) fun q mem => .inl (by rwa [← observeProcs m pid])

/-! Looking names up. -/

theorem viewLocalsHeld {view : FrameView} {ls : Array Value} (found : m.viewLocals? view = some ls) :
    ∃ p ∈ m.procs, ∃ f ∈ p.frames, f.locals = ls := by
  simp only [viewLocals?, bind, Option.bind_eq_some_iff, pure, Option.some.injEq] at found
  obtain ⟨p, proc, f, frame, rfl⟩ := found
  exact ⟨p, Array.mem_of_find?_eq_some proc, f, Array.mem_of_find?_eq_some frame, rfl⟩

theorem Lifetime.lookupIn (life : m.Lifetime) {name : String} :
    ∀ (fuel : Nat) (at_ : ContextId), m.Living at_.index → m.lookupIn fuel at_ name = some v → m.ValueLive v
  | 0, _, _, found => by cases found
  | fuel + 1, at_, alive, found => by
    rw [lookupIn.eq_2] at found
    split at found
    · rename_i b context
      simp only [Bindings.get?, Option.map_eq_some_iff] at found
      obtain ⟨⟨k, w⟩, bound, rfl⟩ := found
      exact life.held _ (.inr ⟨at_.index, .bindings b, context, alive,
        List.mem_map.mpr ⟨(k, w), List.mem_of_find?_eq_some bound, rfl⟩⟩)
    · rename_i view context
      split at found
      · cases found
      · split at found
        · obtain ⟨ls, shown, got⟩ := Option.bind_eq_some_iff.mp found
          obtain ⟨p, proc, f, frame, rfl⟩ := viewLocalsHeld shown
          exact (life.procLive proc).1 v (heldOfLocal frame (Array.mem_of_getElem? got))
        · -- a context the view could see lives, as the view refers to it
          obtain ⟨c, mem, found'⟩ := List.exists_of_findSome?_eq_some found
          have seen : c ∈ view.visible := by simpa using mem
          exact life.lookupIn fuel c (life.kept c (.inr ⟨at_.index, _, context, alive,
            (memRefersTo _ c).mpr (.inr ⟨view, rfl, seen⟩)⟩)) found'
    · cases found

theorem Lifetime.lookup (life : m.Lifetime) (alive : m.ProcLive p) {name : String}
    (found : m.lookup p name = some v) : m.ValueLive v := by
  obtain ⟨c, mem, found'⟩ := List.exists_of_findSome?_eq_some found
  exact life.lookupIn m.contextFuel c (alive.2 c (by simpa using mem)) found'

end Machine

end ScriptEngine
