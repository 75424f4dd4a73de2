import ScriptEngine.Proofs.Compaction
import ScriptEngine.Proofs.FrameViews
/-!
Where a name lives. Reading a name and assigning to it search a process's contexts the same
way: innermost first, a binding context that has the name, or a view whose frame has it as a
local (and a slot for it), or else, through a view, the contexts the view's frame could see.
The search is stated once, as the home of a name, and a lookup reads the home while an
assignment, in contexts whose views are all valid and show live frames, writes it. So a name
is found exactly when it can be assigned, an assignment changes the value at the home and
nothing else, and what the lookup finds after it is the value written.
-/
namespace ScriptEngine

/-- What a name search sees of a context: the names a binding context binds, or the view. -/
def Context.layout : Context → List String ⊕ FrameView
  | .bindings b => .inl (b.vars.map (·.1))
  | .frameView v => .inr v

namespace Machine

/-- Where a name lives: a variable of a binding context, or a local slot of the frame a view
shows. -/
inductive Home where
  | binding (c : ContextId)
  | frameLocal (v : FrameView) (i : Nat)
  deriving DecidableEq, Repr

/-- The home of a name through a context, searched as a lookup searches. -/
def homeIn (m : Machine) : Nat → ContextId → String → Option Home
  | 0, _, _ => none
  | fuel + 1, id, name =>
    match m.context? id with
    | some (.bindings b) => if b.vars.any (·.1 == name) then some (.binding id) else none
    | some (.frameView v) =>
      if !m.viewValid v then none
      else match v.localNames.findIdx? (· == name) with
        | some i =>
          match m.viewLocals? v with
          | some ls => if i < ls.size then some (.frameLocal v i) else none
          | none => none
        | none => v.visible.reverse.toList.findSome? fun c => m.homeIn fuel c name
    | none => none

/-- The home of a name for a process: through its contexts, innermost first. -/
def home (m : Machine) (p : Process) (name : String) : Option Home :=
  p.contexts.reverse.toList.findSome? fun c => m.homeIn m.contextFuel c name

/-- The value of a name at a home. -/
def readAt (m : Machine) (name : String) : Home → Option Value
  | .binding c =>
    match m.context? c with
    | some (.bindings b) => b.get? name
    | _ => none
  | .frameLocal v i => (m.viewLocals? v).bind (·[i]?)

/-- A name given a value at a home. -/
def writeAt (m : Machine) (name : String) (x : Value) : Home → Machine
  | .binding c =>
    match m.context? c with
    | some (.bindings b) => m.setContext c (.bindings (b.define name x))
    | _ => m
  | .frameLocal v i => (m.setViewLocal v i x).1

/-- Every view reached from a context, down through the contexts views show, is valid and
shows a frame still on its process's stack. -/
def lit (m : Machine) : Nat → ContextId → Bool
  | 0, _ => true
  | fuel + 1, id =>
    match m.context? id with
    | some (.frameView v) => m.viewValid v && (m.viewLocals? v).isSome && v.visible.all (m.lit fuel)
    | _ => true

/-- What an assignment that found home `h?` leaves: the name written there, or nothing done. -/
def writeHome (m : Machine) (name : String) (x : Value) : Option Home → Machine × Bool
  | some h => (m.writeAt name x h, true)
  | none => (m, false)

/-- Where a write lands: a variable of a context, or a slot of a frame. -/
inductive Cell where
  | var (c : ContextId) (name : String)
  | slot (process frame i : Nat)
  deriving DecidableEq, Repr

/-- The cell behind a home of a name: every view of one frame shares its slots. -/
def Home.cell (name : String) : Home → Cell
  | .binding c => .var c name
  | .frameLocal v i => .slot v.process v.frame i

/-- Machines on which every name is searched alike: the same contexts but for the values of
variables, the same generations, and as many locals behind every view. -/
structure Resembles (m m' : Machine) : Prop where
  contexts : ∀ c, (m'.context? c).map Context.layout = (m.context? c).map Context.layout
  generations : SameGenerations m m'
  room : ∀ v, (m'.viewLocals? v).map Array.size = (m.viewLocals? v).map Array.size

variable {m m' : Machine} {name : String} {x : Value}

/-! Binding contexts. -/

theorem getDefined {b : Bindings} : (b.get? name).isSome = b.vars.any (·.1 == name) := by
  rw [Bindings.get?, Option.isSome_map, Bool.eq_iff_iff, List.find?_isSome, List.any_eq_true]

theorem getDefine (b : Bindings) (name' : String) :
    (b.define name x).get? name' = if name' = name then some x else b.get? name' := by
  unfold Bindings.get? Bindings.define
  split
  · -- a rebinding keeps every key where it was
    rename_i defined
    simp only [List.find?_map, Function.comp_def, apply_ite Prod.fst, apply_ite Prod.snd, ite_self,
      Option.map_map]
    cases found : List.find? (fun kw => kw.fst == name') b.vars with
    | none =>
      split_ifs with same
      · subst same
        obtain ⟨kw, mem, key⟩ := List.any_eq_true.mp defined
        exact absurd key (List.find?_eq_none.mp found kw mem)
      · rfl
    | some kw =>
      have key : kw.1 = name' := by simpa using List.find?_some found
      split_ifs with same <;> simp [key, same]
  · rename_i undefined
    have absent : b.vars.find? (·.1 == name) = none :=
      List.find?_eq_none.mpr fun kw mem key => undefined (List.any_eq_true.mpr ⟨kw, mem, key⟩)
    split_ifs with same
    · subst same
      simp [List.find?_append, absent]
    · simp [List.find?_append, Ne.symm same]

theorem defineKeys {b : Bindings} (defined : b.vars.any (·.1 == name)) :
    (b.define name x).vars.map (·.1) = b.vars.map (·.1) := by
  simp [Bindings.define, defined, Function.comp_def, apply_ite Prod.fst]

theorem contextSetContext (c c' : ContextId) (k : Context) :
    (m.setContext c k).context? c' = if c' = c then (m.context? c).map fun _ => k else m.context? c' := by
  by_cases same : c' = c
  · subst same
    by_cases lt : c'.index < m.contexts.size <;> simp [setContext, context?, lt]
  · have apart : c.index ≠ c'.index := by
      rcases c with ⟨j⟩
      rcases c' with ⟨j'⟩
      exact fun h => same (congrArg ContextId.mk h.symm)
    simp [setContext, context?, same, apart]

/-! Reading. -/

theorem findSomeRead {α β γ : Type} (f : α → Option γ) (g : α → Option β) (r : β → Option γ)
    (read : ∀ c, f c = (g c).bind r) (full : ∀ c h, g c = some h → (r h).isSome) :
    ∀ l : List α, l.findSome? f = (l.findSome? g).bind r
  | [] => rfl
  | c :: l => by
    rw [List.findSome?_cons, List.findSome?_cons, read c]
    rcases found : g c with _ | h
    · exact findSomeRead f g r read full l
    · obtain ⟨y, hy⟩ := Option.isSome_iff_exists.mp (full c h found)
      simp [hy]

theorem readHome : ∀ (fuel : Nat) (id : ContextId) (h : Home),
    m.homeIn fuel id name = some h → (m.readAt name h).isSome
  | 0, _, _, found => by simp [homeIn] at found
  | fuel + 1, id, h, found => by
    rcases at_ : m.context? id with _ | ⟨b⟩ | ⟨v⟩
    · simp [homeIn, at_] at found
    · by_cases defined : b.vars.any (·.1 == name)
      · simp only [homeIn, at_, defined, if_true, Option.some.injEq] at found
        subst found
        simp [readAt, at_, getDefined, defined]
      · simp [homeIn, at_, defined] at found
    · by_cases valid : m.viewValid v
      · rcases local_ : v.localNames.findIdx? (· == name) with _ | i
        · simp only [homeIn, at_, valid, local_, Bool.not_true, Bool.false_eq_true, if_false] at found
          obtain ⟨c, -, at_c⟩ := List.exists_of_findSome?_eq_some found
          exact readHome fuel c h at_c
        · rcases locals : m.viewLocals? v with _ | ls
          · simp [homeIn, at_, valid, local_, locals] at found
          · by_cases room : i < ls.size
            · simp only [homeIn, at_, valid, local_, locals, room, Bool.not_true,
                Bool.false_eq_true, if_false, if_true, Option.some.injEq] at found
              subst found
              simp [readAt, locals, room]
            · simp [homeIn, at_, valid, local_, locals, room] at found
      · simp [homeIn, at_, valid] at found

theorem lookupInHome : ∀ (fuel : Nat) (id : ContextId),
    m.lookupIn fuel id name = (m.homeIn fuel id name).bind (m.readAt name)
  | 0, _ => rfl
  | fuel + 1, id => by
    rcases at_ : m.context? id with _ | ⟨b⟩ | ⟨v⟩
    · simp [lookupIn, homeIn, at_]
    · by_cases defined : b.vars.any (·.1 == name)
      · simp [lookupIn, homeIn, at_, defined, readAt]
      · have undefined : b.get? name = none := by
          simpa [← getDefined] using defined
        simp [lookupIn, homeIn, at_, defined, undefined]
    · by_cases valid : m.viewValid v
      · rcases local_ : v.localNames.findIdx? (· == name) with _ | i
        · simp only [lookupIn, homeIn, at_, valid, local_, Bool.not_true, Bool.false_eq_true, if_false]
          exact findSomeRead _ _ _ (fun c => lookupInHome fuel c)
            (fun c h found => readHome fuel c h found) _
        · rcases locals : m.viewLocals? v with _ | ls
          · simp [lookupIn, homeIn, at_, valid, local_, locals]
          · by_cases room : i < ls.size
            · simp [lookupIn, homeIn, at_, valid, local_, locals, room, readAt]
            · simp [lookupIn, homeIn, at_, valid, local_, locals, room]
      · simp [lookupIn, homeIn, at_, valid]

theorem lookupHome (p : Process) : m.lookup p name = (m.home p name).bind (m.readAt name) :=
  findSomeRead _ _ _ (fun c => lookupInHome _ c) (fun c h found => readHome _ c h found) _

theorem homeRead {p : Process} {h : Home} (homed : m.home p name = some h) :
    (m.readAt name h).isSome := by
  obtain ⟨c, -, at_⟩ := List.exists_of_findSome?_eq_some homed
  exact readHome _ c h at_

/-! Assigning. -/

theorem viewLocalsFound {v : FrameView} {ls : Array Value} (locals : m.viewLocals? v = some ls) :
    ∃ p k f, m.proc? v.process = some p ∧ p.frames.findIdx? (·.serial == v.frame) = some k ∧
      p.frames[k]? = some f ∧ f.locals = ls := by
  simp only [viewLocals?, Array.find?_eq_bind_findIdx?_getElem?, Option.bind_eq_bind,
    Option.bind_eq_some_iff, Option.pure_def, Option.some.injEq] at locals
  obtain ⟨p, found, f, ⟨k, at_, frame⟩, rfl⟩ := locals
  exact ⟨p, k, f, found, at_, frame, rfl⟩

theorem setViewLocalRoom {v : FrameView} {ls : Array Value} (locals : m.viewLocals? v = some ls)
    (i : Nat) : m.setViewLocal v i x =
      if i < ls.size then ((m.setViewLocal v i x).1, true) else (m, false) := by
  obtain ⟨p, k, f, found, at_, frame, rfl⟩ := viewLocalsFound locals
  unfold setViewLocal
  simp only [found, at_, frame]
  split <;> rfl

theorem firstAssignHome {fuel : Nat}
    (step : ∀ c, m.lit fuel c → m.assignIn fuel c name x = .ok (m.writeHome name x (m.homeIn fuel c name))) :
    ∀ cs : List ContextId, (∀ c ∈ cs, m.lit fuel c) →
      assignIn.firstAssign fuel m cs name x =
        .ok (m.writeHome name x (cs.findSome? fun c => m.homeIn fuel c name))
  | [], _ => by rw [assignIn.firstAssign.eq_1]; rfl
  | c :: cs, lit => by
    rw [assignIn.firstAssign.eq_2, step c (lit c List.mem_cons_self), List.findSome?_cons]
    rcases m.homeIn fuel c name with _ | h
    · exact firstAssignHome step cs fun c' mem => lit c' (List.mem_cons_of_mem c mem)
    · rfl

theorem assignInHome : ∀ (fuel : Nat) (id : ContextId), m.lit fuel id →
    m.assignIn fuel id name x = .ok (m.writeHome name x (m.homeIn fuel id name))
  | 0, _, _ => by simp [assignIn, homeIn, writeHome]
  | fuel + 1, id, lit => by
    rcases at_ : m.context? id with _ | ⟨b⟩ | ⟨v⟩
    · simp [assignIn, homeIn, at_, writeHome]
    · by_cases defined : b.vars.any (·.1 == name)
      · simp [assignIn, homeIn, at_, defined, Bindings.assign?, writeHome, writeAt]
      · simp [assignIn, homeIn, at_, defined, Bindings.assign?, writeHome]
    · simp only [Machine.lit, at_, Bool.and_eq_true, Array.all_eq_true'] at lit
      obtain ⟨⟨valid, live⟩, visible⟩ := lit
      obtain ⟨ls, locals⟩ := Option.isSome_iff_exists.mp live
      rcases local_ : v.localNames.findIdx? (· == name) with _ | i
      · simp only [assignIn, homeIn, at_, valid, local_, Bool.not_true, Bool.false_eq_true, if_false]
        exact firstAssignHome (fun c => assignInHome fuel c) _ fun c mem => visible c (by simpa using mem)
      · simp only [assignIn, homeIn, at_, valid, local_, locals, Bool.not_true, Bool.false_eq_true,
          if_false, Option.isNone_some]
        rw [setViewLocalRoom locals]
        by_cases room : i < ls.size <;> simp [room, writeHome, writeAt]

theorem assignNameHome : ∀ cs : List ContextId, (∀ c ∈ cs, m.lit m.contextFuel c) →
    m.assignName cs name x = .ok (m.writeHome name x (cs.findSome? fun c => m.homeIn m.contextFuel c name))
  | [], _ => by rw [assignName.eq_1]; rfl
  | c :: cs, lit => by
    rw [assignName.eq_2, contextAssign, assignInHome _ c (lit c List.mem_cons_self), List.findSome?_cons]
    rcases m.homeIn m.contextFuel c name with _ | h
    · exact assignNameHome cs fun c' mem => lit c' (List.mem_cons_of_mem c mem)
    · rfl

theorem assignHome (p : Process) (lit : ∀ k ∈ p.contexts, m.lit m.contextFuel k) :
    m.assignName p.contexts.reverse.toList name x = .ok (m.writeHome name x (m.home p name)) :=
  assignNameHome _ fun k mem => lit k (by simpa using mem)

/-! Frames written through views. -/

theorem findIdxSetList {α : Type} (q : α → Bool) {y : α} :
    ∀ (xs : List α) (k : Nat), (∀ a, xs[k]? = some a → q y = q a) →
      (xs.set k y).findIdx? q = xs.findIdx? q
  | [], _, _ => rfl
  | a :: xs, 0, same => by simp [List.findIdx?_cons, same a rfl]
  | a :: xs, k + 1, same => by
    simp [List.findIdx?_cons, findIdxSetList q xs k fun b at_ => same b (by simpa using at_)]

theorem findIdxSet {α : Type} {q : α → Bool} {xs : Array α} {k : Nat} {y : α}
    (same : ∀ a, xs[k]? = some a → q y = q a) : (xs.set! k y).findIdx? q = xs.findIdx? q := by
  rcases xs with ⟨l⟩
  simpa using findIdxSetList q l k (by simpa using same)

theorem frameLocalsSet {frames : Array Frame} {s k : Nat} {f : Frame} (ls : Array Value)
    (at_ : frames.findIdx? (·.serial == s) = some k) (frame : frames[k]? = some f) (s' : Nat) :
    ((frames.set! k { f with locals := ls }).find? (·.serial == s')).map (·.locals) =
      if s' = s then some ls else (frames.find? (·.serial == s')).map (·.locals) := by
  obtain ⟨lt, hit, -⟩ := Array.findIdx?_eq_some_iff_getElem.mp at_
  have serial : f.serial = s := by
    simp only [Array.getElem?_eq_getElem lt, Option.some.injEq] at frame
    simpa [frame] using hit
  rw [Array.find?_eq_bind_findIdx?_getElem?, Array.find?_eq_bind_findIdx?_getElem?,
    findIdxSet (by simp [frame])]
  split_ifs with same
  · subst same
    simp [at_, Array.getElem?_setIfInBounds, lt]
  · cases found : frames.findIdx? (·.serial == s') with
    | none => rfl
    | some j =>
      -- the frame found for another serial is not the one written
      have other : k ≠ j := by
        rintro rfl
        obtain ⟨_, seen, -⟩ := Array.findIdx?_eq_some_iff_getElem.mp found
        simp only [Array.getElem?_eq_getElem lt, Option.some.injEq] at frame
        have found_s : s = s' := by simpa [frame, serial] using seen
        exact same found_s.symm
      simp [Array.getElem?_setIfInBounds, other]

theorem viewLocalsOf (v : FrameView) : m.viewLocals? v =
    (m.proc? v.process).bind fun p => (p.frames.find? (·.serial == v.frame)).map (·.locals) := by
  simp only [viewLocals?]
  congr 1
  funext p
  cases p.frames.find? (·.serial == v.frame) <;> rfl

theorem viewLocalsSameFrame {v v' : FrameView} (same : v'.process = v.process ∧ v'.frame = v.frame) :
    m.viewLocals? v' = m.viewLocals? v := by
  rw [viewLocalsOf, viewLocalsOf, same.1, same.2]

theorem setViewLocalNone {v : FrameView} (locals : m.viewLocals? v = none) (i : Nat) :
    m.setViewLocal v i x = (m, false) := by
  rw [viewLocalsOf] at locals
  rcases found : m.proc? v.process with _ | p
  · simp [setViewLocal, found]
  rw [found, Option.bind_some, Option.map_eq_none_iff, Array.find?_eq_bind_findIdx?_getElem?]
    at locals
  rcases at_ : p.frames.findIdx? (·.serial == v.frame) with _ | k
  · simp [setViewLocal, found, at_]
  rw [at_, Option.bind_some] at locals
  simp [setViewLocal, found, at_, locals]

theorem viewLocalsSet (v v' : FrameView) (i : Nat) :
    (m.setViewLocal v i x).1.viewLocals? v' =
      if v'.process = v.process ∧ v'.frame = v.frame then (m.viewLocals? v').map (·.set! i x)
      else m.viewLocals? v' := by
  rcases locals : m.viewLocals? v with _ | ls
  · -- the view shows no frame, so nothing is written and no view of its frame shows one
    rw [setViewLocalNone locals]
    split_ifs with same
    · rw [viewLocalsSameFrame same, locals]
      rfl
    · rfl
  obtain ⟨p, k, f, found, at_, frame, rfl⟩ := viewLocalsFound locals
  by_cases room : i < f.locals.size
  · simp only [setViewLocal, found, at_, frame, room, if_true]
    have own : p.id = v.process := procIdOf found
    have foundOwn : m.proc? p.id = some p := own ▸ found
    rw [viewLocalsOf, procSetProc]
    by_cases sameProc : v'.process = v.process
    · -- the process of the view is found again, with the one frame written
      simp only [sameProc, ← own, if_true, foundOwn, Option.map_some, Option.bind_some]
      rw [frameLocalsSet _ at_ frame]
      by_cases sameFrame : v'.frame = v.frame
      · simp [sameFrame, viewLocalsSameFrame ⟨sameProc, sameFrame⟩, locals]
      · simp [sameFrame, viewLocalsOf, sameProc, found]
    · have other : v'.process ≠ p.id := own ▸ sameProc
      simp [other, sameProc, viewLocalsOf]
  · rw [setViewLocalRoom locals, if_neg room]
    split_ifs with same
    · simp [viewLocalsSameFrame same, locals, Array.setIfInBounds_eq_of_size_le (Nat.le_of_not_lt room)]
    · rfl

theorem setViewLocalContexts (v : FrameView) (i : Nat) :
    (m.setViewLocal v i x).1.contexts = m.contexts := by
  rcases setViewLocalEq m v i x with same | ⟨p, k, f, -, -, set⟩
  · rw [same]
  · rw [set, setProcContexts]

theorem sameGenerationsSetViewLocal (v : FrameView) (i : Nat) :
    SameGenerations m (m.setViewLocal v i x).1 := by
  rcases setViewLocalEq m v i x with same | ⟨p, k, f, found, -, set⟩
  · rw [same]
    exact SameGenerations.refl m
  · rw [set]
    exact SameGenerations.setFound found rfl rfl

/-! Writing keeps every search. -/

theorem Resembles.homeIn (alike : Resembles m m') : ∀ (fuel : Nat) (id : ContextId),
    m'.homeIn fuel id name = m.homeIn fuel id name
  | 0, _ => rfl
  | fuel + 1, id => by
    have layout := alike.contexts id
    rcases at_ : m.context? id with _ | ⟨b⟩ | ⟨v⟩ <;> rw [at_] at layout
    · simp [Machine.homeIn, at_, Option.map_eq_none_iff.mp layout]
    · obtain ⟨k, at', same⟩ := Option.map_eq_some_iff.mp layout
      cases k with
      | bindings b' =>
        have keys : b'.vars.map (·.1) = b.vars.map (·.1) := by simpa [Context.layout] using same
        have defined : b'.vars.any (·.1 == name) = b.vars.any (·.1 == name) := by
          simpa [List.any_map, Function.comp_def] using congrArg (List.any · (· == name)) keys
        simp only [Machine.homeIn, at_, at', defined]
      | frameView v' => simp [Context.layout] at same
    · obtain ⟨k, at', same⟩ := Option.map_eq_some_iff.mp layout
      cases k with
      | bindings b' => simp [Context.layout] at same
      | frameView v' =>
        obtain rfl : v' = v := by simpa [Context.layout] using same
        have room := alike.room v'
        simp only [Machine.homeIn, at_, at', alike.generations.viewValid, Resembles.homeIn alike fuel]
        cases hm : m.viewLocals? v' <;> cases hm' : m'.viewLocals? v' <;>
          simp only [hm, hm', Option.map_none, Option.map_some, reduceCtorEq, Option.some.injEq] at room ⊢
        rw [room]

theorem writeAtContexts (h : Home) (pid : Nat) :
    ((m.writeAt name x h).proc? pid).map (·.contexts) = (m.proc? pid).map (·.contexts) := by
  cases h with
  | binding c =>
    simp only [writeAt]
    split <;> rfl
  | frameLocal v i =>
    rcases setViewLocalEq m v i x with same | ⟨q, k, f, found, -, set⟩
    · simp only [writeAt, same]
    · simp only [writeAt, set, procSetProc]
      split
      · rename_i own
        rw [own, procIdOf found, found]
        rfl
      · rfl

theorem Resembles.fuel (alike : Resembles m m') : m'.contextFuel = m.contextFuel := by
  have present (j : Nat) : j < m'.contexts.size ↔ j < m.contexts.size := by
    have same := congrArg Option.isSome (alike.contexts ⟨j⟩)
    simp only [context?, Option.isSome_map] at same
    have there : (m'.contexts[j]?).isSome = true ↔ j < m'.contexts.size := by
      simp only [isSome_getElem?]
    have here : (m.contexts[j]?).isSome = true ↔ j < m.contexts.size := by
      simp only [isSome_getElem?]
    rw [← there, ← here, same]
  have above := present m.contexts.size
  have below := present m'.contexts.size
  simp only [contextFuel]
  omega

theorem Resembles.home (alike : Resembles m m') (p : Process) : m'.home p name = m.home p name := by
  simp only [Machine.home, alike.fuel, alike.homeIn]

theorem resemblesWriteAt {h : Home} (read : (m.readAt name h).isSome) :
    Resembles m (m.writeAt name x h) := by
  cases h with
  | binding c =>
    rcases at_ : m.context? c with _ | ⟨b⟩ | ⟨v⟩ <;> simp only [readAt, at_, Option.isSome_none,
      Bool.false_eq_true] at read
    have defined : b.vars.any (·.1 == name) := by rwa [getDefined] at read
    simp only [writeAt, at_]
    refine ⟨fun c' => ?_, SameGenerations.ofProcs rfl, fun v => rfl⟩
    rw [contextSetContext]
    split_ifs with same
    · subst same
      simp [at_, Context.layout, defineKeys defined]
    · rfl
  | frameLocal v i =>
    refine ⟨fun c => ?_, sameGenerationsSetViewLocal v i, fun v' => ?_⟩
    · simp only [writeAt, context?, setViewLocalContexts]
    · simp only [writeAt, viewLocalsSet]
      split_ifs <;> simp [Option.map_map, Function.comp_def]

theorem readWritten {h : Home} (read : (m.readAt name h).isSome) :
    (m.writeAt name x h).readAt name h = some x := by
  cases h with
  | binding c =>
    rcases at_ : m.context? c with _ | ⟨b⟩ | ⟨v⟩ <;> simp only [readAt, at_, Option.isSome_none,
      Bool.false_eq_true] at read
    simp [writeAt, readAt, at_, contextSetContext, getDefine]
  | frameLocal v i =>
    rcases locals : m.viewLocals? v with _ | ls <;> simp [readAt, locals] at read
    simp [writeAt, readAt, viewLocalsSet, locals, read]

theorem readOther {h h' : Home} {name' : String} (apart : h'.cell name' ≠ h.cell name) :
    (m.writeAt name x h).readAt name' h' = m.readAt name' h' := by
  cases h with
  | binding c =>
    rcases at_ : m.context? c with _ | ⟨b⟩ | ⟨v⟩ <;> simp only [writeAt, at_]
    cases h' with
    | binding c' =>
      simp only [readAt, contextSetContext]
      split_ifs with same
      · subst same
        have other : name' ≠ name := by simpa [Home.cell] using apart
        simp [at_, getDefine, other]
      · rfl
    | frameLocal v' i' => rfl
  | frameLocal v i =>
    cases h' with
    | binding c' => simp only [writeAt, readAt, context?, setViewLocalContexts]
    | frameLocal v' i' =>
      simp only [writeAt, readAt, viewLocalsSet]
      split_ifs with same
      · have other : i ≠ i' := by
          intro slot
          exact apart (by simp [Home.cell, same, slot])
        cases m.viewLocals? v' <;> simp [other]
      · rfl

end Machine

namespace Exec

open Machine

variable {m : Machine} {pid i : Nat} {c : Code} {p : Process} {n : String} {v : Value}

theorem storeNameRun (found : m.proc? pid = some p) (named : c.name? i = some n)
    (top : p.peekValue = .ok v) (lit : ∀ k ∈ p.contexts, m.lit m.contextFuel k) :
    (instr pid c (.storeName i)).run m = match m.home p n with
      | some h => (.ok .continue, m.writeAt n v h)
      | none => (.error (.unknownIdentifier n), m) := by
  rw [← runPost]
  simp only [instr, named, peek, postBind, postPure, postProc, postGet, found, postLiftFault, top,
    assignHome p lit, postSet, postIte, postThrow]
  cases m.home p n <;> simp [writeHome]

theorem pushNameRun (found : m.proc? pid = some p) (named : c.name? i = some n) :
    (instr pid c (.pushName i)).run m = match m.lookup p n with
      | some v => (do push pid v; return .continue : Exec Outcome).run m
      | none => (.error (.unknownIdentifier n), m) := by
  rw [← runPost]
  simp only [instr, named, postBind, postPure, postProc, postGet, found]
  cases m.lookup p n with
  | none => rfl
  | some v => exact runPost.mpr rfl

theorem pushNameAfterWrite {h : Home} (found : m.proc? pid = some p) (named : c.name? i = some n)
    (homed : m.home p n = some h) :
    (instr pid c (.pushName i)).run (m.writeAt n v h) =
      (do push pid v; return .continue : Exec Outcome).run (m.writeAt n v h) := by
  have read : (m.readAt n h).isSome := homeRead homed
  obtain ⟨q, foundAfter, same⟩ : ∃ q, (m.writeAt n v h).proc? pid = some q ∧ q.contexts = p.contexts := by
    have kept : ((m.writeAt n v h).proc? pid).map (·.contexts) = (m.proc? pid).map (·.contexts) :=
      writeAtContexts h pid
    rw [found] at kept
    obtain ⟨q, at_, contexts⟩ := Option.map_eq_some_iff.mp kept
    exact ⟨q, at_, contexts⟩
  have looked : (m.writeAt n v h).lookup q n = some v := by
    rw [lookupHome, show (m.writeAt n v h).home q n = (m.writeAt n v h).home p n by
      simp only [Machine.home, same], (resemblesWriteAt read).home, homed, Option.bind_some,
      readWritten read]
  rw [pushNameRun foundAfter named, looked]

/-- A store to a name and a push of it, by a process whose contexts are all lit and with `v` on
top of its stack, agree on where the name lives. The store succeeds exactly when the push finds
the name; it writes `v` at the home the push reads, which then reads `v` while every other cell
keeps its value, and a push of the name after it pushes `v` as a push of `v` does. A name with
no home fails both alike, and the store leaves the engine as it was. -/
theorem storeNameWritesWherePushNameReads (found : m.proc? pid = some p)
    (named : c.name? i = some n) (top : p.peekValue = .ok v)
    (lit : ∀ k ∈ p.contexts, m.lit m.contextFuel k) :
    ((∃ m', (instr pid c (.storeName i)).run m = (.ok .continue, m')) ↔ (m.lookup p n).isSome) ∧
    (∀ h, m.home p n = some h →
      m.lookup p n = m.readAt n h ∧
      (instr pid c (.storeName i)).run m = (.ok .continue, m.writeAt n v h) ∧
      (m.writeAt n v h).home p n = some h ∧ (m.writeAt n v h).readAt n h = some v ∧
      (∀ n' h', h'.cell n' ≠ h.cell n → (m.writeAt n v h).readAt n' h' = m.readAt n' h') ∧
      (instr pid c (.pushName i)).run (m.writeAt n v h) =
        (do push pid v; return .continue : Exec Outcome).run (m.writeAt n v h)) ∧
    (m.lookup p n = none →
      (instr pid c (.storeName i)).run m = (.error (.unknownIdentifier n), m) ∧
      (instr pid c (.pushName i)).run m = (.error (.unknownIdentifier n), m)) := by
  have stored := storeNameRun found named top lit
  refine ⟨?_, fun h homed => ?_, fun missing => ?_⟩
  · -- the store succeeds exactly when the name has a home, which is when the lookup finds it
    rw [stored, lookupHome]
    cases homed : m.home p n with
    | none =>
      simp only [Option.bind_none, Option.isSome_none, Bool.false_eq_true, iff_false]
      rintro ⟨_, stuck⟩
      cases stuck
    | some h => simp [homeRead homed]
  · have read := homeRead homed
    refine ⟨by rw [lookupHome, homed, Option.bind_some], by rw [stored, homed], ?_, readWritten read,
      fun n' h' apart => readOther apart, pushNameAfterWrite found named homed⟩
    rw [(resemblesWriteAt read).home, homed]
  · have unhomed : m.home p n = none := by
      cases homed : m.home p n with
      | none => rfl
      | some h =>
        have read := homeRead homed
        rw [lookupHome, homed, Option.bind_some] at missing
        simp [missing] at read
    rw [stored, unhomed, pushNameRun found named, missing]
    exact ⟨rfl, rfl⟩

/-- The store of a name through a view of the process's own frame, which has no such local,
lands in the context the frame could see. -/
theorem storeThroughViewAgrees :
    let frame : Frame :=
      { code := ⟨0⟩, locals := #[.int 2], index := 0, serial := 0, contextSp := 0,
        contextTos := 1, handlerSp := 0, valueSp := 0, wantResult := false }
    let view : FrameView :=
      { subroutine := "f", process := 1, frame := 0, localNames := #["y"], visible := #[⟨0⟩],
        generation := 0 }
    let p : Process :=
      { id := 1, name := "p", frames := #[frame], contexts := #[⟨0⟩, ⟨1⟩], values := #[.int 7] }
    let m : Machine :=
      { contexts := #[.bindings { name := "g", vars := [("x", .int 1)] }, .frameView view],
        procs := #[p] }
    let c : Code := { names := #["x"] }
    m.proc? 1 = some p ∧ c.name? 0 = some "x" ∧ p.peekValue = .ok (.int 7) ∧
      (∀ k ∈ p.contexts, m.lit m.contextFuel k) ∧
      ((∃ m', (instr 1 c (.storeName 0)).run m = (.ok .continue, m')) ↔ (m.lookup p "x").isSome) ∧
      (∀ h, m.home p "x" = some h →
        m.lookup p "x" = m.readAt "x" h ∧
        (instr 1 c (.storeName 0)).run m = (.ok .continue, m.writeAt "x" (.int 7) h) ∧
        (m.writeAt "x" (.int 7) h).home p "x" = some h ∧
        (m.writeAt "x" (.int 7) h).readAt "x" h = some (.int 7) ∧
        (∀ n' h', h'.cell n' ≠ h.cell "x" →
          (m.writeAt "x" (.int 7) h).readAt n' h' = m.readAt n' h') ∧
        (instr 1 c (.pushName 0)).run (m.writeAt "x" (.int 7) h) =
          (do push 1 (.int 7); return .continue : Exec Outcome).run (m.writeAt "x" (.int 7) h)) ∧
      (m.lookup p "x" = none →
        (instr 1 c (.storeName 0)).run m = (.error (.unknownIdentifier "x"), m) ∧
        (instr 1 c (.pushName 0)).run m = (.error (.unknownIdentifier "x"), m)) := by
  intro frame view p m c
  have found : m.proc? 1 = some p := rfl
  have lit : ∀ k ∈ p.contexts, m.lit m.contextFuel k := by decide +kernel
  exact ⟨found, rfl, rfl, lit, storeNameWritesWherePushNameReads found rfl rfl lit⟩

/-- On a full value stack a store to a name succeeds, and a push of the name then overflows. -/
theorem fullStackStoresButCannotPush :
    let frame : Frame :=
      { code := ⟨0⟩, locals := #[], index := 0, serial := 0, contextSp := 0, contextTos := 1,
        handlerSp := 0, valueSp := 0, wantResult := false }
    let p : Process :=
      { id := 1, name := "p", frames := #[frame], contexts := #[⟨0⟩], values := #[.int 5],
        limits := { maxValues := 1 } }
    let m : Machine :=
      { contexts := #[.bindings { name := "g", vars := [("x", .int 1)] }], procs := #[p] }
    let c : Code := { names := #["x"] }
    ((instr 1 c (.storeName 0)).run m).1 = .ok .continue ∧
      ((instr 1 c (.pushName 0)).run ((instr 1 c (.storeName 0)).run m).2).1 = .error .stackOverflow := by
  intro frame p m c
  have found : m.proc? 1 = some p := rfl
  have lit : ∀ k ∈ p.contexts, m.lit m.contextFuel k := by decide +kernel
  have homed : m.home p "x" = some (.binding ⟨0⟩) := by decide +kernel
  rw [storeNameRun (c := c) (i := 0) (n := "x") (v := .int 5) found rfl rfl lit, homed]
  refine ⟨rfl, ?_⟩
  rw [pushNameAfterWrite found rfl homed]
  decide +kernel

end Exec

end ScriptEngine
