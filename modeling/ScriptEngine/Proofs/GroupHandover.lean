import Mathlib.Data.List.Forall2
import ScriptEngine.Proofs.GroupTurns
/-!
Two operations of the process list on groups. Joining moves a process into a group and takes
every other member of its old group along, whatever their state, unless the old group is 0,
which is no group; a suspended or frozen process cannot be joined, though the members of its
group move along with any process that can. Terminating ends any known process, finished
ones included, with its stacks emptied and its result and failure kept. A process that was
running or waiting held its group's slot: the slot goes to the group's first runnable member,
or the group is reported finished. No other process changes state.
-/
namespace ScriptEngine

namespace Process

/-- What terminating leaves of process `p`: a terminated process without frames, contexts,
handlers or values, with the result and the failure `p` had. -/
structure EndedFrom (p q : Process) : Prop where
  status : q.status = .terminated
  frames : q.frames = #[]
  contexts : q.contexts = #[]
  handlers : q.handlers = #[]
  values : q.values = #[]
  contextTos : q.contextTos = 0
  result : q.result = p.result
  failure : q.failure = p.failure

/-- The process holds the slot of a group: it runs or waits, and has a group. -/
def HoldsSlot (p : Process) : Prop := (p.status = .running ∨ p.status = .waiting) ∧ p.group ≠ 0

/-- `q` is `p` moved along by a join of process `pid`, whose group was `h`, into group `g`:
only the group changes, and it becomes `g` for `pid` itself and, when `h` is a group, for every
member of `h`. -/
def MovedBy (pid h g : Nat) (p q : Process) : Prop :=
  q = { p with group := q.group } ∧ q.group = if p.id = pid ∨ (h ≠ 0 ∧ p.group = h) then g else p.group

end Process

namespace Machine

open Process

variable {m : Machine} {pid : Nat} {p : Process}

def Joinable (m : Machine) (pid : Nat) : Prop :=
  ∃ p, m.proc? pid = some p ∧ p.status ≠ .suspended ∧ p.status ≠ .frozen

def StatusesKept (m m' : Machine) (moved : List Nat) : Prop :=
  ∀ q, q ∉ moved → m'.statusOf q = m.statusOf q

/-! ### Joining -/

theorem joinRefused (refused : m.proc? pid = some p) (stays : p.status = .suspended ∨ p.status = .frozen)
    (g : Nat) : m.join pid g = (m, false) := by
  have : (p.status == .suspended || p.status == .frozen) = true := by simpa using stays
  simp only [join, refused, this, if_true]

theorem joinMoves (found : m.proc? pid = some p) (moves : p.status ≠ .suspended) (moves' : p.status ≠ .frozen)
    (g : Nat) : m.join pid g = ({ m with procs := m.procs.map fun q =>
      if q.id == pid || (p.group != 0 && q.group == p.group) then { q with group := g } else q }, true) := by
  have : (p.status == .suspended || p.status == .frozen) = false := by simpa using ⟨moves, moves'⟩
  simp only [join, found, this, Bool.false_eq_true, if_false]

theorem joinedIff (m : Machine) (pid g : Nat) : (m.join pid g).2 = true ↔ m.Joinable pid := by
  cases found : m.proc? pid with
  | none => simp [join, found, Joinable]
  | some p =>
    by_cases stays : p.status = .suspended ∨ p.status = .frozen
    · rw [joinRefused found stays]
      simp only [Bool.false_eq_true, false_iff]
      rintro ⟨q, found', notSuspended, notFrozen⟩
      cases found.symm.trans found'
      rcases stays with suspended | frozen
      · exact notSuspended suspended
      · exact notFrozen frozen
    · obtain ⟨moves, moves'⟩ := not_or.mp stays
      rw [joinMoves found moves moves']
      exact ⟨fun _ => ⟨p, found, moves, moves'⟩, fun _ => rfl⟩

theorem joinRefusedKeeps (m : Machine) (pid g : Nat) (refused : (m.join pid g).2 = false) :
    (m.join pid g).1 = m := by
  cases found : m.proc? pid with
  | none => simp only [join, found]
  | some p =>
    by_cases stays : p.status = .suspended ∨ p.status = .frozen
    · rw [joinRefused found stays]
    · obtain ⟨moves, moves'⟩ := not_or.mp stays
      rw [joinMoves found moves moves'] at refused
      cases refused

theorem joinMovesEach (found : m.proc? pid = some p) (joined : (m.join pid g).2 = true) :
    List.Forall₂ (MovedBy pid p.group g) m.procs.toList (m.join pid g).1.procs.toList ∧
      { (m.join pid g).1 with procs := m.procs } = m := by
  obtain ⟨p', found', moves, moves'⟩ := (joinedIff m pid g).mp joined
  cases found.symm.trans found'
  rw [joinMoves found moves moves']
  refine ⟨?_, rfl⟩
  simp only [Array.toList_map, List.forall₂_map_right_iff]
  refine List.forall₂_same.mpr fun q _ => ?_
  by_cases movedAlong : q.id = pid ∨ (p.group ≠ 0 ∧ q.group = p.group)
  · have : (q.id == pid || (p.group != 0 && q.group == p.group)) = true := by simpa using movedAlong
    simp only [MovedBy, this, if_true, if_pos movedAlong, and_self]
  · have : (q.id == pid || (p.group != 0 && q.group == p.group)) = false := by simpa using movedAlong
    simp only [MovedBy, this, Bool.false_eq_true, if_false, if_neg movedAlong, and_self]

/-- Joining moves a whole group. A join succeeds exactly when the process exists and is
neither suspended nor frozen, and a refused join changes nothing. A join that succeeds keeps
every process in its place and changes only groups: the process joins `g`, and so does every
process that shared its old group `h`, whatever its state, unless `h` is 0. -/
theorem joinMovesGroup (m : Machine) (pid g : Nat) :
    ((m.join pid g).2 = true ↔ m.Joinable pid) ∧
    ((m.join pid g).2 = false → (m.join pid g).1 = m) ∧
    ∀ p, m.proc? pid = some p → (m.join pid g).2 = true →
      List.Forall₂ (MovedBy pid p.group g) m.procs.toList (m.join pid g).1.procs.toList ∧
        { (m.join pid g).1 with procs := m.procs } = m :=
  ⟨joinedIff m pid g, joinRefusedKeeps m pid g, fun _ found joined => joinMovesEach found joined⟩

/-! ### Terminating -/

@[simp] theorem procSettle (m : Machine) (q : Nat) : m.settle.proc? q = m.proc? q := by
  simp only [proc?, settleProcs]

theorem eventsOfAside {m' : Machine} (aside : Aside pid m m') : m'.events = m.events :=
  congrArg Prod.fst aside.ledger

theorem terminateUnknown (none : m.proc? pid = none) : m.terminate pid = (m, false) := by
  simp only [terminate, none]

theorem terminateKnown (found : m.proc? pid = some p) :
    m.terminate pid = (if p.status == .running || p.status == .waiting then
      (m.finish pid .terminated).settle.startGroup p.group
      else (m.finish pid .terminated).settle, true) := by
  simp only [terminate, found]
  split <;> rfl

theorem endedAside : Aside pid m (m.finish pid .terminated).settle :=
  (asideFinish .terminated).trans (asideSettle _)

theorem endedProc (found : m.proc? pid = some p) :
    ∃ q, (m.finish pid .terminated).settle.proc? pid = some q ∧ p.EndedFrom q := by
  rw [procSettle, finishFound found]
  exact ⟨_, rfl, ⟨rfl, rfl, rfl, rfl, rfl, rfl, rfl, rfl⟩⟩

theorem endedStatuses : m.StatusesKept (m.finish pid .terminated).settle [pid] :=
  fun _ other => statusAside endedAside (by simpa using other)

theorem endedMembers (distinct : m.Distinct) (found : m.proc? pid = some p) (busy : p.status ≠ .runnable)
    (g : Nat) : (m.finish pid .terminated).settle.runnableMembers g = m.runnableMembers g := by
  obtain ⟨q, at_, ended⟩ := endedProc found
  have gone : pid ∉ (m.finish pid .terminated).settle.runnableMembers g := fun mem => by
    have := memberRunnable (distinctAside endedAside distinct) mem
    simp [statusOf, at_, ended.status] at this
  have absent : pid ∉ m.runnableMembers g := fun mem => by
    have := memberRunnable distinct mem
    simp [statusOf, found, busy] at this
  rw [runnableMembers, idsAfter endedAside _ gone, ← runnableMembers, List.filter_eq_self]
  intro q mem
  have : q ≠ pid := fun same => absent (same ▸ mem)
  simpa using this

theorem startGroupKeepsIdle (distinct : m.Distinct) (g : Nat) {r : Nat}
    (idle : m.statusOf r ≠ some .runnable) : (m.startGroup g).proc? r = m.proc? r := by
  unfold startGroup
  split
  · rfl
  split
  · rename_i p' first
    have mem : p' ∈ m.procs.toList := by simpa using Array.mem_of_find?_eq_some first
    have runnable : p'.status = .runnable := (by simpa using Array.find?_some first : p'.group = g ∧ _).2
    rw [procSetProc]
    split
    · rename_i same
      have found : m.proc? r = some p' := by simpa [same] using procOfMem distinct mem
      exact absurd (by simp [statusOf, found, runnable]) idle
    · rfl
  · rfl

theorem startGroupGives {q : Nat} {rest : List Nat} {g : Nat} (nonzero : g ≠ 0) (distinct : m.Distinct)
    (first : m.runnableMembers g = q :: rest) :
    (m.startGroup g).statusOf q = some .running ∧ m.StatusesKept (m.startGroup g) [q] ∧
      (m.startGroup g).events = m.events := by
  have mem : q ∈ m.runnableMembers g := by
    rw [first]
    exact List.mem_cons_self
  have runnable : m.statusOf q = some .runnable := memberRunnable distinct mem
  obtain ⟨p', found, -⟩ : ∃ p', m.proc? q = some p' ∧ p'.status = .runnable := by
    simpa [statusOf] using runnable
  rw [startGroupFirst nonzero distinct first]
  exact ⟨by simp [statusOf, giveFound found], fun r other => statusAside (asideGive m q) (by simpa using other),
    eventsOfAside (asideGive m q)⟩

theorem startGroupReports {g : Nat} (nonzero : g ≠ 0) (empty : m.runnableMembers g = []) :
    m.StatusesKept (m.startGroup g) [] ∧ (m.startGroup g).events = m.events.push (.groupFinished g) := by
  rw [startGroupNone nonzero empty]
  exact ⟨fun _ _ => rfl, rfl⟩

theorem StatusesKept.trans {m' m'' : Machine} {moved : List Nat} (first : m.StatusesKept m' moved)
    (next : m'.StatusesKept m'' moved) : m.StatusesKept m'' moved :=
  fun q out => (next q out).trans (first q out)

theorem StatusesKept.mono {m' : Machine} {moved moved' : List Nat} (kept : m.StatusesKept m' moved)
    (sub : moved ⊆ moved') : m.StatusesKept m' moved' :=
  fun q out => kept q fun mem => out (sub mem)

theorem holderBusy (holds : p.HoldsSlot) :
    (p.status == .running || p.status == .waiting) = true ∧ p.status ≠ .runnable := by
  rcases holds.1 with running | waiting
  · simp [running]
  · simp [waiting]

theorem terminateEndsProcess (distinct : m.Distinct) (found : m.proc? pid = some p) :
    ∃ q, (m.terminate pid).1.proc? pid = some q ∧ p.EndedFrom q := by
  obtain ⟨q, at_, ended⟩ := endedProc found
  refine ⟨q, ?_, ended⟩
  rw [terminateKnown found]
  split
  · -- the slot goes to a runnable member, and the ended process is none
    rw [startGroupKeepsIdle (distinctAside endedAside distinct) _ (by simp [statusOf, at_, ended.status])]
    exact at_
  · exact at_

theorem terminateHolder (found : m.proc? pid = some p) (holds : p.HoldsSlot) :
    (m.terminate pid).1 = (m.finish pid .terminated).settle.startGroup p.group := by
  rw [terminateKnown found, if_pos (holderBusy holds).1]

theorem terminatePassesSlot {q : Nat} {rest : List Nat} (distinct : m.Distinct)
    (found : m.proc? pid = some p) (holds : p.HoldsSlot) (first : m.runnableMembers p.group = q :: rest) :
    (m.terminate pid).1.statusOf q = some .running ∧ m.StatusesKept (m.terminate pid).1 [pid, q] ∧
      (m.terminate pid).1.events = m.events := by
  rw [terminateHolder found holds]
  obtain ⟨running, kept, events⟩ := startGroupGives holds.2 (distinctAside endedAside distinct)
    (by rw [endedMembers distinct found (holderBusy holds).2]; exact first)
  exact ⟨running, (endedStatuses.mono (by simp)).trans (kept.mono (by simp)),
    events.trans (eventsOfAside endedAside)⟩

theorem terminateFinishesGroup (distinct : m.Distinct) (found : m.proc? pid = some p)
    (holds : p.HoldsSlot) (empty : m.runnableMembers p.group = []) :
    m.StatusesKept (m.terminate pid).1 [pid] ∧
      (m.terminate pid).1.events = m.events.push (.groupFinished p.group) := by
  rw [terminateHolder found holds]
  obtain ⟨kept, events⟩ := startGroupReports holds.2
    (by rw [endedMembers distinct found (holderBusy holds).2]; exact empty)
  exact ⟨endedStatuses.trans (kept.mono (by simp)), by rw [events, eventsOfAside endedAside]⟩

theorem terminateKeepsOthers (found : m.proc? pid = some p) (idle : ¬p.HoldsSlot) :
    m.StatusesKept (m.terminate pid).1 [pid] ∧ (m.terminate pid).1.events = m.events := by
  rw [terminateKnown found]
  split
  · -- a holder without a group: group 0 is never started
    rename_i holder
    have zero : p.group = 0 := Classical.byContradiction fun nonzero => idle ⟨by simpa using holder, nonzero⟩
    rw [zero, startGroupZero]
    exact ⟨endedStatuses, eventsOfAside endedAside⟩
  · exact ⟨endedStatuses, eventsOfAside endedAside⟩

/-- Terminating ends the process and hands its slot on. Only an unknown id is refused, and
then nothing changes. A known process ends terminated, its stacks emptied and its result and
failure kept. If it held its group's slot, the group's first runnable member in list order
runs next, or the group is reported finished when it has none; otherwise no event is emitted.
No other process changes state. -/
theorem terminateHandsSlotOn (m : Machine) (distinct : m.Distinct) (pid : Nat) :
    ((m.terminate pid).2 = false ↔ m.proc? pid = none) ∧
    (m.proc? pid = none → (m.terminate pid).1 = m) ∧
    ∀ p, m.proc? pid = some p →
      (∃ q, (m.terminate pid).1.proc? pid = some q ∧ p.EndedFrom q) ∧
      (p.HoldsSlot → ∀ q rest, m.runnableMembers p.group = q :: rest →
        (m.terminate pid).1.statusOf q = some .running ∧
          m.StatusesKept (m.terminate pid).1 [pid, q] ∧ (m.terminate pid).1.events = m.events) ∧
      (p.HoldsSlot → m.runnableMembers p.group = [] →
        m.StatusesKept (m.terminate pid).1 [pid] ∧
          (m.terminate pid).1.events = m.events.push (.groupFinished p.group)) ∧
      (¬p.HoldsSlot → m.StatusesKept (m.terminate pid).1 [pid] ∧ (m.terminate pid).1.events = m.events) := by
  refine ⟨?_, fun none => by rw [terminateUnknown none], fun p found => ?_⟩
  · cases found : m.proc? pid with
    | none => simp [terminateUnknown found]
    | some p => simp [terminateKnown found]
  · exact ⟨terminateEndsProcess distinct found, fun holds _ _ first => terminatePassesSlot distinct found holds first,
      terminateFinishesGroup distinct found, fun idle => terminateKeepsOthers found idle⟩

theorem runningMemberHandsOn :
    ∃ m : Machine, m.Distinct ∧
      ((m.terminate 1).2 = false ↔ m.proc? 1 = none) ∧
      (m.proc? 1 = none → (m.terminate 1).1 = m) ∧
      ∀ p, m.proc? 1 = some p →
        (∃ q, (m.terminate 1).1.proc? 1 = some q ∧ p.EndedFrom q) ∧
        (p.HoldsSlot → ∀ q rest, m.runnableMembers p.group = q :: rest →
          (m.terminate 1).1.statusOf q = some .running ∧
            m.StatusesKept (m.terminate 1).1 [1, q] ∧ (m.terminate 1).1.events = m.events) ∧
        (p.HoldsSlot → m.runnableMembers p.group = [] →
          m.StatusesKept (m.terminate 1).1 [1] ∧
            (m.terminate 1).1.events = m.events.push (.groupFinished p.group)) ∧
        (¬p.HoldsSlot → m.StatusesKept (m.terminate 1).1 [1] ∧ (m.terminate 1).1.events = m.events) := by
  let m : Machine := { procs := #[{ id := 1, name := "a", status := .running, group := 1 },
    { id := 2, name := "b", status := .runnable, group := 1 }] }
  have distinct : m.Distinct := by decide
  exact ⟨m, distinct, terminateHandsSlotOn m distinct 1⟩

end Machine

end ScriptEngine
