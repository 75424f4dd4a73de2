import ScriptEngine.Proofs.SchedulerView
/-!
Group-sequential scheduling. Starting a group hands its slot to the first runnable member in
list order; running the list then runs that member, and each time the running member gives
the slot up without waiting the group moves on to its next runnable member. So the members
take their turns one at a time and in list order, each exactly once, until one comes back
waiting, which keeps the slot; when none does, the group is reported finished, once. No
other process changes state, and no process is left running.
-/
namespace ScriptEngine

namespace Machine

open Process

def idsWhere (m : Machine) (keep : Nat → Status → Bool) : List Nat :=
  (m.procs.toList.filter fun p => keep p.group p.status).map (·.id)

def runningIds (m : Machine) : List Nat := m.idsWhere fun _ s => s == .running

def runnableMembers (m : Machine) (g : Nat) : List Nat :=
  m.idsWhere fun g' s => g' == g && s == .runnable

def statusOf (m : Machine) (pid : Nat) : Option Status := (m.proc? pid).map (·.status)

def Distinct (m : Machine) : Prop := (m.procs.toList.map (·.id)).Nodup

def give (m : Machine) (pid : Nat) : Machine :=
  m.modifyProc pid fun p => { p with status := .running }

def turn (m : Machine) (pid : Nat) : Machine := (m.give pid).run pid

def turns (m : Machine) (pids : List Nat) : Machine := pids.foldl turn m

/-! The process table seen through ids. -/

theorem findIdUnique {l : List Process} {p : Process} (nodup : (l.map (·.id)).Nodup) (mem : p ∈ l) :
    l.find? (fun q => q.id == p.id) = some p := by
  induction l with
  | nil => simp at mem
  | cons a l ih =>
    rw [List.map_cons, List.nodup_cons] at nodup
    rcases List.mem_cons.mp mem with rfl | mem'
    · simp
    · have other : a.id ≠ p.id := fun same => nodup.1 (same ▸ List.mem_map_of_mem mem')
      simp [other, ih nodup.2 mem']

theorem procOfMem {m : Machine} {p : Process} (distinct : m.Distinct) (mem : p ∈ m.procs.toList) :
    m.proc? p.id = some p := by
  simpa [proc?, ← Array.find?_toList] using findIdUnique distinct mem

theorem seenByEq {p q : Process} {pid : Nat} (same : q.seenBy pid = p.seenBy pid) :
    q.place = p.place ∧ (p.id ≠ pid → q.status = p.status) := by
  simp only [seenBy, Prod.mk.injEq] at same
  refine ⟨same.1, fun other => ?_⟩
  have own : q.id = p.id := congrArg Prod.fst same.1
  simpa [own, other] using same.2

theorem findSeen {pid q : Nat} : ∀ {l l' : List Process},
    l'.map (seenBy pid) = l.map (seenBy pid) →
      (l'.find? fun p => p.id == q).map (seenBy pid) = (l.find? fun p => p.id == q).map (seenBy pid)
  | [], [], _ => rfl
  | a :: l, b :: l', same => by
    simp only [List.map_cons, List.cons.injEq] at same
    have own : b.id = a.id := congrArg Prod.fst (seenByEq same.1).1
    by_cases hq : a.id = q
    · simp [own, hq, same.1]
    · simp [own, hq, findSeen same.2]
  | [], _ :: _, same | _ :: _, [], same => by simp at same

theorem filterIdsSeen {pid : Nat} (keep : Nat → Status → Bool) : ∀ {l l' : List Process},
    l'.map (seenBy pid) = l.map (seenBy pid) →
      ((l'.filter fun p => keep p.group p.status).map (·.id)).filter (· != pid) =
        ((l.filter fun p => keep p.group p.status).map (·.id)).filter (· != pid)
  | [], [], _ => rfl
  | a :: l, b :: l', same => by
    simp only [List.map_cons, List.cons.injEq] at same
    obtain ⟨place, status⟩ := seenByEq same.1
    have own : b.id = a.id := congrArg Prod.fst place
    have group : b.group = a.group := congrArg (·.2.1) place
    have rest := filterIdsSeen keep same.2
    by_cases ha : a.id = pid
    · -- the entry of `pid` itself is dropped on both sides
      by_cases kb : keep b.group b.status <;> by_cases ka : keep a.group a.status <;>
        simp [kb, ka, own, ha, rest]
    · have kb : keep b.group b.status = keep a.group a.status := by rw [group, status ha]
      by_cases ka : keep a.group a.status <;> simp [kb, ka, own, ha, rest]
  | [], _ :: _, same | _ :: _, [], same => by simp at same

variable {pid g : Nat} {m m' : Machine}

theorem idsAside (aside : Aside pid m m') (keep : Nat → Status → Bool) :
    (m'.idsWhere keep).filter (· != pid) = (m.idsWhere keep).filter (· != pid) :=
  filterIdsSeen keep aside.seen

theorem idsAfter (aside : Aside pid m m') (keep : Nat → Status → Bool)
    (gone : pid ∉ m'.idsWhere keep) :
    m'.idsWhere keep = (m.idsWhere keep).filter (· != pid) := by
  rw [← idsAside aside keep, List.filter_eq_self.mpr]
  intro q mem
  have : q ≠ pid := fun h => gone (h ▸ mem)
  simpa using this

theorem procAside (aside : Aside pid m m') (q : Nat) :
    (m'.proc? q).map (seenBy pid) = (m.proc? q).map (seenBy pid) := by
  simpa only [proc?, Array.find?_toList] using findSeen (q := q) aside.seen

theorem statusAside (aside : Aside pid m m') {q : Nat} (other : q ≠ pid) :
    m'.statusOf q = m.statusOf q := by
  have same := procAside aside q
  unfold statusOf
  cases h' : m'.proc? q <;> cases h : m.proc? q <;>
    simp only [h, h', Option.map_none, Option.map_some, reduceCtorEq, Option.some.injEq] at same ⊢
  rename_i b a
  exact (seenByEq same).2 fun own => other ((procIdOf h).symm.trans own)

theorem placeAside (aside : Aside pid m m') (q : Nat) :
    (m'.proc? q).map place = (m.proc? q).map place := by
  have same := congrArg (Option.map Prod.fst) (procAside aside q)
  simpa [Option.map_map, Function.comp_def, seenBy] using same

theorem distinctAside (aside : Aside pid m m') (distinct : m.Distinct) : m'.Distinct := by
  have ids : ∀ M : Machine, M.procs.toList.map (·.id) = (M.seen pid).map (·.1.1) := fun M => by
    simp [seen, Function.comp_def, seenBy, place]
  unfold Distinct at distinct ⊢
  rwa [ids, aside.seen, ← ids]

theorem idsNodup (distinct : m.Distinct) (keep : Nat → Status → Bool) :
    (m.idsWhere keep).Nodup :=
  distinct.sublist (List.filter_sublist.map _)

theorem memIds {keep : Nat → Status → Bool} {q : Nat} (distinct : m.Distinct)
    (mem : q ∈ m.idsWhere keep) : ∃ p, m.proc? q = some p ∧ keep p.group p.status := by
  obtain ⟨p, kept, rfl⟩ := List.mem_map.mp mem
  obtain ⟨inProcs, passes⟩ := List.mem_filter.mp kept
  exact ⟨p, procOfMem distinct inProcs, passes⟩

theorem memIdsOf {keep : Nat → Status → Bool} {q : Nat} {p : Process} (found : m.proc? q = some p)
    (passes : keep p.group p.status) : q ∈ m.idsWhere keep := by
  have mem : p ∈ m.procs.toList :=
    List.mem_of_find?_eq_some (by simpa [proc?, ← Array.find?_toList] using found)
  exact List.mem_map.mpr ⟨p, List.mem_filter.mpr ⟨mem, passes⟩, procIdOf found⟩

theorem memberRunnable {q : Nat} (distinct : m.Distinct) (mem : q ∈ m.runnableMembers g) :
    m.statusOf q = some .runnable := by
  obtain ⟨p, found, passes⟩ := memIds distinct mem
  simp only [Bool.and_eq_true, beq_iff_eq] at passes
  simp [statusOf, found, passes.2]

theorem findFirst {l : List Process} {P : Process → Bool} {q : Nat} {rest : List Nat}
    (first : (l.filter P).map (·.id) = q :: rest) :
    ∃ p, l.find? P = some p ∧ p.id = q ∧ p ∈ l ∧ P p := by
  obtain ⟨p, ps, kept, rfl, -⟩ := List.map_eq_cons_iff.mp first
  have head : (l.filter P).head? = some p := by rw [kept]; rfl
  have mem : p ∈ l.filter P := by rw [kept]; exact List.mem_cons_self
  exact ⟨p, List.head?_filter ▸ head, rfl, (List.mem_filter.mp mem).1, (List.mem_filter.mp mem).2⟩

theorem findNone {l : List Process} {P : Process → Bool} (empty : (l.filter P).map (·.id) = []) :
    l.find? P = none := by
  rw [← List.head?_filter, List.map_eq_nil_iff.mp empty]
  rfl

/-! Giving the slot and starting a group. -/

theorem modifyFirstFound (f : Process → Process) {p : Process} :
    ∀ {l : List Process}, l.find? (fun q => q.id == pid) = some p →
      modifyFirst pid f l = modifyFirst pid (fun _ => f p) l
  | a :: l, found => by
    by_cases ha : a.id = pid
    · have : a = p := by simpa [List.find?_cons, ha] using found
      subst this
      simp [modifyFirst, ha]
    · simp only [List.find?_cons, show (a.id == pid) = false by simpa using ha] at found
      simp [modifyFirst, ha, modifyFirstFound f found]

theorem modifyProcFound (f : Process → Process) {p : Process} (found : m.proc? pid = some p) :
    m.modifyProc pid f = m.modifyProc pid fun _ => f p := by
  rw [modifyProcFirst, modifyProcFirst, modifyFirstFound f (by simpa [proc?] using found)]

theorem giveFound {p : Process} (found : m.proc? pid = some p) :
    (m.give pid).proc? pid = some { p with status := .running } := by
  rw [give, procModifyProc m pid pid (fun p => { p with status := .running }) (fun _ h => h),
    if_pos rfl, found]
  rfl

theorem asideGive (m : Machine) (pid : Nat) : Aside pid m (m.give pid) := asideSetStatus .running

@[simp] theorem giveExhausted (m : Machine) (pid : Nat) : (m.give pid).exhausted = m.exhausted := by
  unfold give modifyProc
  split <;> rfl

theorem startGroupFirst {rest : List Nat} (nonzero : g ≠ 0) (distinct : m.Distinct)
    (first : m.runnableMembers g = pid :: rest) : m.startGroup g = m.give pid := by
  obtain ⟨p, found, own, mem, -⟩ := findFirst first
  have at_ : m.proc? pid = some p := own ▸ procOfMem distinct mem
  unfold startGroup
  rw [if_neg (by simpa using nonzero), ← Array.find?_toList, found]
  dsimp only
  rw [give, modifyProcFound _ at_, setProc, own]

theorem startGroupNone (nonzero : g ≠ 0) (empty : m.runnableMembers g = []) :
    m.startGroup g = m.emit (.groupFinished g) := by
  unfold startGroup
  rw [if_neg (by simpa using nonzero), ← Array.find?_toList, findNone empty]

theorem startGroupZero (m : Machine) : m.startGroup 0 = m := rfl

/-! One turn. -/

section Turn

variable {rest : List Nat}

/-- What a turn of the first runnable member of group `g` starts from: no process running,
ids distinct. -/
structure Ready (m : Machine) (g pid : Nat) (rest : List Nat) : Prop where
  first : m.runnableMembers g = pid :: rest
  idle : m.runningIds = []
  distinct : m.Distinct

theorem Ready.found (ready : Ready m g pid rest) :
    ∃ p, m.proc? pid = some p ∧ p.group = g ∧ p.status = .runnable := by
  obtain ⟨p, found, passes⟩ := memIds ready.distinct (ready.first ▸ List.mem_cons_self)
  simp only [Bool.and_eq_true, beq_iff_eq] at passes
  exact ⟨p, found, passes⟩

theorem Ready.fresh (ready : Ready m g pid rest) : pid ∉ rest := by
  have := idsNodup ready.distinct fun g' s => g' == g && s == .runnable
  rw [show m.idsWhere _ = m.runnableMembers g from rfl, ready.first] at this
  exact (List.nodup_cons.mp this).1

theorem asideTurn (m : Machine) (pid : Nat) : Aside pid m (m.turn pid) :=
  (asideGive m pid).trans (asideExecute _ pid false)

theorem eqSingleton {l : List Nat} {a : Nat} (nodup : l.Nodup) (mem : a ∈ l)
    (only : ∀ x ∈ l, x = a) : l = [a] := by
  have all : l = List.replicate l.length a := List.eq_replicate_iff.mpr ⟨rfl, only⟩
  have short : l.length ≤ 1 := List.nodup_replicate.mp (by rwa [← all])
  have pos : 0 < l.length := List.length_pos_of_mem mem
  rw [all, show l.length = 1 by omega]
  rfl

theorem Ready.alone (ready : Ready m g pid rest) : (m.give pid).runningIds = [pid] := by
  obtain ⟨p, found, -, -⟩ := ready.found
  have others := idsAside (asideGive m pid) fun _ s => s == .running
  rw [show m.idsWhere _ = m.runningIds from rfl, ready.idle] at others
  refine eqSingleton (idsNodup (distinctAside (asideGive m pid) ready.distinct) _)
    (memIdsOf (giveFound found) (by simp)) fun q mem => Decidable.byContradiction fun other => ?_
  -- every running process other than `pid` was running before
  have : q ∈ ((m.give pid).idsWhere fun _ s => s == .running).filter (· != pid) :=
    List.mem_filter.mpr ⟨mem, by simpa using other⟩
  rw [others] at this
  simp at this

theorem Status.haltedIdle {s : Status} (halted : s = .waiting ∨ s = .suspended ∨ s.isTerminal) :
    s ≠ .running ∧ s ≠ .runnable := by
  rcases halted with rfl | rfl | terminal
  · simp
  · simp
  · cases s <;> simp_all [Status.isTerminal]

theorem Ready.halts (ready : Ready m g pid rest) (within : (m.turn pid).exhausted = false) :
    ∃ q, (m.turn pid).proc? pid = some q ∧ q.group = g ∧
      (q.status = .waiting ∨ q.status = .suspended ∨ q.status.isTerminal) := by
  obtain ⟨p, found, group, -⟩ := ready.found
  obtain ⟨q, atEnd, halted⟩ := executeHalts (giveFound found) (by simp [Status.isTerminal]) within
  have atEnd : (m.turn pid).proc? pid = some q := atEnd
  have same := placeAside (asideTurn m pid) pid
  rw [atEnd, found] at same
  simp only [Option.map_some, Option.some.injEq, place, Prod.mk.injEq] at same
  exact ⟨q, atEnd, same.2.1.trans group, halted⟩

theorem Ready.gone (ready : Ready m g pid rest) (within : (m.turn pid).exhausted = false)
    (keep : Nat → Status → Bool)
    (refuses : ∀ g' s, (s = .waiting ∨ s = .suspended ∨ s.isTerminal) → keep g' s = false) :
    pid ∉ (m.turn pid).idsWhere keep := fun mem => by
  obtain ⟨q, atEnd, -, halted⟩ := ready.halts within
  obtain ⟨q', found, passes⟩ := memIds (distinctAside (asideTurn m pid) ready.distinct) mem
  rw [atEnd, Option.some.injEq] at found
  subst found
  rw [refuses _ _ halted] at passes
  cases passes

theorem Ready.idleAfter (ready : Ready m g pid rest) (within : (m.turn pid).exhausted = false) :
    (m.turn pid).runningIds = [] := by
  have gone := ready.gone within (fun _ s => s == .running) fun _ s halted => by
    simp [(Status.haltedIdle halted).1]
  rw [runningIds, idsAfter (asideTurn m pid) _ gone, show m.idsWhere _ = m.runningIds from rfl,
    ready.idle]
  rfl

theorem Ready.membersAfter (ready : Ready m g pid rest) (within : (m.turn pid).exhausted = false) :
    (m.turn pid).runnableMembers g = rest := by
  have gone := ready.gone within (fun g' s => g' == g && s == .runnable)
    fun _ s halted => by simp [(Status.haltedIdle halted).2]
  have kept : rest.filter (· != pid) = rest := List.filter_eq_self.mpr fun q mem => by
    have : q ≠ pid := fun h => ready.fresh (h ▸ mem)
    simpa using this
  rw [runnableMembers, idsAfter (asideTurn m pid) _ gone,
    show m.idsWhere _ = m.runnableMembers g from rfl, ready.first]
  simpa using kept

theorem statusTurn (m : Machine) {q : Nat} (other : q ≠ pid) :
    (m.turn pid).statusOf q = m.statusOf q :=
  statusAside (asideTurn m pid) other

theorem eventsTurn (m : Machine) (pid : Nat) : (m.turn pid).events = m.events :=
  congrArg Prod.fst (asideTurn m pid).ledger

end Turn

/-! The scheduler's loop. -/

theorem goIdle (idle : m.runningIds = []) : ∀ fuel, runList.go m fuel = m
  | 0 => rfl
  | fuel + 1 => by
    unfold runList.go
    split
    · rfl
    · rw [← Array.find?_toList, findNone idle]

theorem goExhausted (exhausted : m.exhausted = true) : ∀ fuel, runList.go m fuel = m
  | 0 => rfl
  | fuel + 1 => by
    unfold runList.go
    rw [if_pos exhausted]

theorem Ready.round {rest : List Nat} (ready : Ready m g pid rest) (nonzero : g ≠ 0)
    (fresh : m.exhausted = false) (fuel : Nat) :
    runList.go (m.startGroup g) (fuel + 1) =
      if (m.turn pid).exhausted then m.turn pid
      else if (m.turn pid).statusOf pid = some .waiting then m.turn pid
      else runList.go ((m.turn pid).startGroup g) fuel := by
  obtain ⟨p, found, own, -, -⟩ := findFirst ready.alone
  rw [startGroupFirst nonzero ready.distinct ready.first, runList.go.eq_2, giveExhausted,
    if_neg (by simp [fresh]), ← Array.find?_toList, found]
  dsimp only
  rw [own, show (m.give pid).run pid = m.turn pid from rfl]
  by_cases spent : (m.turn pid).exhausted = true
  · rw [if_pos spent, if_pos spent]
  · have within : (m.turn pid).exhausted = false := by simpa using spent
    obtain ⟨q, atEnd, group, halted⟩ := ready.halts within
    rw [if_neg spent, if_neg spent, atEnd]
    dsimp only
    simp only [statusOf, atEnd, Option.map_some, Option.some.injEq]
    -- a member that waits keeps the slot; any other halt passes it on
    by_cases waiting : q.status = .waiting
    · rw [waiting, if_pos rfl]
      exact goIdle (ready.idleAfter within) fuel
    · rw [if_neg waiting]
      obtain ⟨notRunning, notRunnable⟩ := Status.haltedIdle halted
      cases hs : q.status
      case waiting => exact absurd hs waiting
      case runnable => exact absurd hs notRunnable
      case running => exact absurd hs notRunning
      all_goals
        dsimp only
        rw [group]

theorem sizeStartGroup (m : Machine) (g : Nat) : (m.startGroup g).procs.size = m.procs.size := by
  unfold startGroup
  split
  · rfl
  · split
    · simp [setProc, modifyProc]
      split <;> simp
    · rfl

/-! The whole run of a group. -/

/-- Starting group `g` from `m` and running the list reaches `m'` after the turns of the
members `ran`. -/
structure GroupRun (g : Nat) (m : Machine) (ran : List Nat) (m' : Machine) : Prop where
  /-- The members that ran are the first runnable members, in list order. -/
  order : ran <+: m.runnableMembers g
  /-- Each member runs alone, and only the last to run may come back waiting. -/
  eachTurn : ∀ before pid after, ran = before ++ pid :: after →
    ((m.turns before).give pid).runningIds = [pid] ∧
      (after ≠ [] → ((m.turns before).turn pid).statusOf pid ≠ some .waiting)
  /-- The last member to run came back waiting and keeps the slot; or every member ran and
  the group is reported finished, once. -/
  ends : (∃ pid, ran.getLast? = some pid ∧ m'.statusOf pid = some .waiting ∧
      m' = m.turns ran ∧ m'.events = m.events) ∨
    (ran = m.runnableMembers g ∧ (∀ pid ∈ ran, m'.statusOf pid ≠ some .waiting) ∧
      m' = (m.turns ran).emit (.groupFinished g) ∧ m'.events = m.events.push (.groupFinished g))
  idle : m'.runningIds = []
  rest : ∀ pid ∈ (m.runnableMembers g).drop ran.length, m'.statusOf pid = some .runnable
  others : ∀ pid, pid ∉ ran → m'.statusOf pid = m.statusOf pid

theorem GroupRun.finished (empty : m.runnableMembers g = []) (idle : m.runningIds = []) :
    GroupRun g m [] (m.emit (.groupFinished g)) where
  order := ⟨_, rfl⟩
  eachTurn before pid after split := by simp at split
  ends := .inr ⟨empty.symm, by simp, rfl, rfl⟩
  idle := idle
  rest pid mem := by simp [empty] at mem
  others _ _ := rfl

theorem GroupRun.waits {rest : List Nat} (ready : Ready m g pid rest)
    (within : (m.turn pid).exhausted = false)
    (waiting : (m.turn pid).statusOf pid = some .waiting) :
    GroupRun g m [pid] (m.turn pid) where
  order := ⟨rest, ready.first.symm⟩
  eachTurn before q after split := by
    obtain ⟨rfl, rfl, rfl⟩ : before = [] ∧ q = pid ∧ after = [] := by
      cases before with
      | nil => simpa using split.symm
      | cons b before => simp at split
    exact ⟨ready.alone, fun h => absurd rfl h⟩
  ends := .inl ⟨pid, rfl, waiting, rfl, eventsTurn m pid⟩
  idle := ready.idleAfter within
  rest q mem := by
    rw [ready.first, List.length_singleton, List.drop_one, List.tail_cons,
      ← ready.membersAfter within] at mem
    exact memberRunnable (distinctAside (asideTurn m pid) ready.distinct) mem
  others q other := statusTurn m (by simpa using other)

theorem GroupRun.passes {rest ran : List Nat} (ready : Ready m g pid rest)
    (within : (m.turn pid).exhausted = false)
    (passed : (m.turn pid).statusOf pid ≠ some .waiting)
    (next : GroupRun g (m.turn pid) ran m') : GroupRun g m (pid :: ran) m' := by
  have members := ready.membersAfter within
  have later : pid ∉ ran := fun mem => ready.fresh ((members ▸ next.order).subset mem)
  have kept : m'.statusOf pid = (m.turn pid).statusOf pid := next.others pid later
  refine ⟨?_, ?_, ?_, next.idle, ?_, ?_⟩
  · rw [ready.first]
    exact List.cons_prefix_cons.mpr ⟨rfl, members ▸ next.order⟩
  · intro before q after split
    cases before with
    | nil =>
      obtain ⟨rfl, rfl⟩ : q = pid ∧ after = ran := by simpa using split.symm
      exact ⟨ready.alone, fun _ => passed⟩
    | cons b before =>
      obtain ⟨same, split'⟩ : pid = b ∧ ran = before ++ q :: after := by simpa using split
      subst same
      exact next.eachTurn before q after split'
  · rcases next.ends with ⟨last, isLast, waiting, eq, events⟩ | ⟨all, notWaiting, eq, events⟩
    · have nonempty : ran ≠ [] := by rintro rfl; simp at isLast
      refine .inl ⟨last, ?_, waiting, eq, events.trans (eventsTurn m pid)⟩
      rw [List.getLast?_cons, isLast]
      rfl
    · refine .inr ⟨by rw [ready.first, all, members], ?_, eq, by rw [events, eventsTurn]⟩
      intro q mem
      rcases List.mem_cons.mp mem with rfl | mem
      · rw [kept]
        exact passed
      · exact notWaiting q mem
  · intro q mem
    rw [ready.first, List.length_cons, List.drop_succ_cons, ← members] at mem
    exact next.rest q mem
  · intro q other
    have ⟨notPid, notRan⟩ : q ≠ pid ∧ q ∉ ran := by simpa using other
    exact (next.others q notRan).trans (statusTurn m notPid)

theorem groupRunFrom (nonzero : g ≠ 0) : ∀ (members : List Nat) (m : Machine) (fuel : Nat),
    m.runnableMembers g = members → m.runningIds = [] → m.Distinct → members.length < fuel →
    (runList.go (m.startGroup g) fuel).exhausted = false →
    ∃ ran, GroupRun g m ran (runList.go (m.startGroup g) fuel)
  | [], m, fuel, empty, idle, _, _, _ => by
    rw [startGroupNone nonzero empty, goIdle (m := m.emit _) idle]
    exact ⟨[], .finished empty idle⟩
  | pid :: rest, m, fuel + 1, first, idle, distinct, room, returns => by
    have ready : Ready m g pid rest := ⟨first, idle, distinct⟩
    have fresh : m.exhausted = false := by
      cases h : m.exhausted
      · rfl
      · rw [startGroupFirst nonzero distinct first,
          goExhausted (by rw [giveExhausted, h]), giveExhausted, h] at returns
        cases returns
    rw [ready.round nonzero fresh fuel] at returns ⊢
    by_cases spent : (m.turn pid).exhausted = true
    · rw [if_pos spent] at returns
      rw [returns] at spent
      cases spent
    · have within : (m.turn pid).exhausted = false := by simpa using spent
      rw [if_neg spent] at returns ⊢
      by_cases waiting : (m.turn pid).statusOf pid = some .waiting
      · rw [if_pos waiting]
        exact ⟨[pid], .waits ready within waiting⟩
      · rw [if_neg waiting] at returns ⊢
        obtain ⟨ran, run⟩ := groupRunFrom nonzero rest (m.turn pid) fuel
          (ready.membersAfter within) (ready.idleAfter within)
          (distinctAside (asideTurn m pid) distinct) (by simpa using room) returns
        exact ⟨pid :: ran, .passes ready within waiting run⟩
  | _ :: _, _, 0, _, _, _, room, _ => by simp at room

instance (m : Machine) : Decidable m.Distinct := inferInstanceAs (Decidable (List.Nodup _))

/-- Group-sequential scheduling. From a process list where no process runs and ids are
distinct, starting a group other than 0 and running the list gives its runnable members
their turns in list order, each once, until one comes back waiting; the group is reported
finished exactly when none does. Starting group 0 changes nothing. -/
theorem groupRunsInTurn (m : Machine) {g : Nat} (nonzero : g ≠ 0) (idle : m.runningIds = [])
    (distinct : m.Distinct) (returns : (runList (m.startGroup g)).exhausted = false) :
    (∃ ran, GroupRun g m ran (runList (m.startGroup g))) ∧ m.startGroup 0 = m := by
  refine ⟨?_, startGroupZero m⟩
  have room : (m.runnableMembers g).length < (m.startGroup g).procs.size + 1 := by
    have short : (m.runnableMembers g).length ≤ m.procs.size := by
      have := (List.filter_sublist (p := fun p : Process => p.group == g && p.status == .runnable)
        (l := m.procs.toList)).length_le
      simpa [runnableMembers, idsWhere] using this
    rw [sizeStartGroup]
    omega
  exact groupRunFrom nonzero _ m _ rfl idle distinct room returns

theorem twoMembersRunInTurn :
    ∃ m : Machine, (1 : Nat) ≠ 0 ∧ m.runningIds = [] ∧ m.Distinct ∧
      (runList (m.startGroup 1)).exhausted = false ∧
      (∃ ran, GroupRun 1 m ran (runList (m.startGroup 1))) ∧ m.startGroup 0 = m := by
  let m : Machine := { procs := #[{ id := 1, name := "a", status := .runnable, group := 1 },
    { id := 2, name := "b", status := .runnable, group := 1 }] }
  have idle : m.runningIds = [] := by decide
  have distinct : m.Distinct := by decide
  have returns : (runList (m.startGroup 1)).exhausted = false := by decide +kernel
  exact ⟨m, by decide, idle, distinct, returns, groupRunsInTurn m (by decide) idle distinct returns⟩

end Machine

end ScriptEngine
