import Mathlib.Data.List.Perm.Basic
import ScriptEngine.Proofs.GroupTurns
/-!
The process list under its public operations. A list built by these operations alone holds
processes that have no code: running one ends it at once, and no process ever waits. Ids
stay distinct. Starting a group hands the slot to a runnable member without looking at who
holds a slot already, so each start between two runs may add a running process: the
number of running processes is at most the number of groups started since the list last
ran, and running the list leaves none running. One running process at a time, and one slot
holder per group, is therefore the host's discipline (a start, then a run), not something
the list enforces.
-/
namespace ScriptEngine

/-- A process with no code to run: no frames, no fault pending, not waiting. -/
structure Process.Bare (p : Process) : Prop where
  frames : p.frames = #[]
  pending : p.pending = none
  notWaiting : p.status ≠ .waiting

namespace Machine

open Process

/-- The public operations of the process list. -/
inductive ListOp where
  | create (name : String)
  | allocateGroup
  | resume (pid g : Nat)
  | resumeSuspended (g : Nat)
  | join (pid g : Nat)
  | startGroup (g : Nat)
  | run
  | continueProcess (pid : Nat)
  | continueWithFailure (pid : Nat) (message : String)
  | terminate (pid : Nat)
  | setPriority (pid : Nat) (priority : Int)
  | removeTerminated
  deriving DecidableEq, Repr

def perform (m : Machine) : ListOp → Machine
  | .create name => (m.create name).1
  | .allocateGroup => m.allocateGroup.1
  | .resume pid g => (m.resume pid g).1
  | .resumeSuspended g => (m.resumeSuspended g).1
  | .join pid g => (m.join pid g).1
  | .startGroup g => m.startGroup g
  | .run => m.runList
  | .continueProcess pid => (m.continueProcess pid).1
  | .continueWithFailure pid message => (m.continueWithFailure pid message).1
  | .terminate pid => (m.terminate pid).1
  | .setPriority pid priority => (m.setPriority pid priority).1
  | .removeTerminated => m.removeTerminated.1

def performAll (m : Machine) (ops : List ListOp) : Machine := ops.foldl perform m

def startsAfter (n : Nat) : ListOp → Nat
  | .startGroup _ => n + 1
  | .run => 0
  | _ => n

def startsSinceRun (ops : List ListOp) : Nat := ops.foldl startsAfter 0

def statusCount (m : Machine) (k : Status → Bool) : Nat := m.procs.toList.countP fun p => k p.status

def runningCount (m : Machine) : Nat := m.statusCount (· == .running)

-- the processes that still want their group's slot
def contenders (m : Machine) : Nat := m.statusCount fun s => s == .running || s == .runnable

/-- What the list's operations keep: every process bare, ids distinct and below the next
id, and the allowance not run out. -/
structure Tidy (m : Machine) : Prop where
  bare : ∀ p ∈ m.procs.toList, p.Bare
  distinct : m.Distinct
  fresh : ∀ p ∈ m.procs.toList, p.id < m.nextPid
  within : m.exhausted = false

theorem runningIdsLength (m : Machine) : m.runningIds.length = m.runningCount := by
  simp [runningIds, idsWhere, runningCount, statusCount, List.countP_eq_length_filter]

/-- The members of group \x60g\x60 holding its slot: running, or waiting to run on. -/
def slotHolders (m : Machine) (g : Nat) : List Nat :=
  m.idsWhere fun g' s => g' == g && (s == .running || s == .waiting)

/-- No process waits, and at most \x60n\x60 processes hold a slot, in all and in any one group. -/
structure SlotBound (m : Machine) (n : Nat) : Prop where
  noneWaits : ∀ p ∈ m.procs.toList, p.status ≠ .waiting
  running : m.runningIds.length ≤ n
  holders : ∀ g, (m.slotHolders g).length ≤ n

/-! Changing one process. -/

variable {m : Machine} {q : Nat} {p : Process}

theorem memModifyFirst (f : Process → Process) {x : Process} :
    ∀ {l : List Process}, x ∈ modifyFirst q f l →
      x ∈ l ∨ ∃ p, l.find? (fun p => p.id == q) = some p ∧ x = f p
  | a :: l, mem => by
    by_cases ha : a.id = q
    · simp only [modifyFirst, ha, if_true, List.mem_cons] at mem
      rcases mem with rfl | mem
      · exact .inr ⟨a, by simp [ha], rfl⟩
      · exact .inl (List.mem_cons_of_mem a mem)
    · simp only [modifyFirst, ha, if_false, List.mem_cons] at mem
      rcases mem with rfl | mem
      · exact .inl List.mem_cons_self
      · rcases memModifyFirst f mem with old | ⟨p, found, rfl⟩
        · exact .inl (List.mem_cons_of_mem a old)
        · exact .inr ⟨p, by simp [ha, found], rfl⟩

theorem countModifyFirst (k : Process → Bool) (f : Process → Process) :
    ∀ {l : List Process}, l.find? (fun p => p.id == q) = some p →
      (modifyFirst q f l).countP k + (k p).toNat = l.countP k + (k (f p)).toNat
  | a :: l, found => by
    by_cases ha : a.id = q
    · have : a = p := by simpa [ha] using found
      subst this
      simp only [modifyFirst, ha, if_true, List.countP_cons]
      cases k a <;> cases k (f a) <;> simp
    · have rest := countModifyFirst k f (l := l) (by simpa [ha] using found)
      simp only [modifyFirst, ha, if_false, List.countP_cons]
      omega

@[simp] theorem modifyProcExhausted (m : Machine) (q : Nat) (f : Process → Process) :
    (m.modifyProc q f).exhausted = m.exhausted := by
  unfold modifyProc
  split <;> rfl

theorem modifyProcNextPid (m : Machine) (q : Nat) (f : Process → Process) :
    (m.modifyProc q f).nextPid = m.nextPid :=
  congrArg (·.2.1) (ledgerModifyProc m q f)

theorem statusCountModify (k : Status → Bool) (f : Process → Process) (found : m.proc? q = some p) :
    (m.modifyProc q f).statusCount k + (k p.status).toNat = m.statusCount k + (k (f p).status).toNat := by
  rw [statusCount, statusCount, modifyProcFirst]
  exact countModifyFirst (fun p => k p.status) f (by simpa [proc?] using found)

theorem Tidy.modifyProc (tidy : Tidy m) (f : Process → Process) (found : m.proc? q = some p)
    (bare : p.Bare → (f p).Bare) (same : (f p).id = p.id) : Tidy (m.modifyProc q f) := by
  have found' : m.procs.toList.find? (fun p => p.id == q) = some p := by simpa [proc?] using found
  have mem : p ∈ m.procs.toList := List.mem_of_find?_eq_some found'
  have cases : ∀ x ∈ (m.modifyProc q f).procs.toList, x ∈ m.procs.toList ∨ x = f p := by
    intro x memx
    rw [modifyProcFirst] at memx
    rcases memModifyFirst f (by simpa using memx) with old | ⟨p', found'', rfl⟩
    · exact .inl old
    · rw [found', Option.some.injEq] at found''
      exact .inr (congrArg f found''.symm)
  refine ⟨fun x memx => ?_, ?_, fun x memx => ?_, by simp [tidy.within]⟩
  · rcases cases x memx with old | rfl
    · exact tidy.bare x old
    · exact bare (tidy.bare p mem)
  · have ids := mapModifyFirst (·.id) q f m.procs.toList fun p' found'' => by
      rw [found', Option.some.injEq] at found''
      subst found''
      exact same
    unfold Distinct
    rw [modifyProcFirst, ids]
    exact tidy.distinct
  · rw [modifyProcNextPid]
    rcases cases x memx with old | rfl
    · exact tidy.fresh x old
    · exact same ▸ tidy.fresh p mem

theorem setProcAt {r : Process} (found : m.proc? q = some p) (same : r.id = p.id) :
    m.setProc r = m.modifyProc q fun _ => r := by
  rw [setProc, same, procIdOf found]

/-! Changing every process. -/

theorem Tidy.mapProcs (tidy : Tidy m) (h : Process → Process) (bare : ∀ p, p.Bare → (h p).Bare)
    (same : ∀ p, (h p).id = p.id) : Tidy { m with procs := m.procs.map h } := by
  have ids : (m.procs.map h).toList.map (·.id) = m.procs.toList.map (·.id) := by
    simp [Function.comp_def, same]
  refine ⟨fun x memx => ?_, ?_, fun x memx => ?_, tidy.within⟩
  · obtain ⟨p, mem, rfl⟩ : ∃ p ∈ m.procs, h p = x := by simpa using memx
    exact bare p (tidy.bare p (by simpa using mem))
  · unfold Distinct
    rw [ids]
    exact tidy.distinct
  · obtain ⟨p, mem, rfl⟩ : ∃ p ∈ m.procs, h p = x := by simpa using memx
    exact (same p).symm ▸ tidy.fresh p (by simpa using mem)

theorem countMapProcs (m : Machine) (k : Process → Bool) (h : Process → Process)
    (same : ∀ p, k (h p) = k p) : (m.procs.map h).toList.countP k = m.procs.toList.countP k := by
  simp [List.countP_map, Function.comp_def, same]

theorem Tidy.perm (tidy : Tidy m) {ps : Array Process} (perm : ps.Perm m.procs) :
    Tidy { m with procs := ps } := by
  refine ⟨fun x memx => tidy.bare x (perm.toList.subset memx), ?_, fun x memx => tidy.fresh x
    (perm.toList.subset memx), tidy.within⟩
  exact (perm.toList.map _).nodup_iff.mpr tidy.distinct

theorem statusCountPerm {ps : Array Process} (perm : ps.Perm m.procs) (k : Status → Bool) :
    ({ m with procs := ps } : Machine).statusCount k = m.statusCount k :=
  perm.toList.countP_eq _

theorem Tidy.congr {m' : Machine} (tidy : Tidy m) (procs : m'.procs = m.procs)
    (next : m.nextPid ≤ m'.nextPid) (within : m'.exhausted = m.exhausted) : Tidy m' := by
  refine ⟨?_, ?_, fun x mem => ?_, within.trans tidy.within⟩
  · rw [procs]
    exact tidy.bare
  · unfold Distinct
    rw [procs]
    exact tidy.distinct
  · rw [procs] at mem
    exact Nat.lt_of_lt_of_le (tidy.fresh x mem) next

@[simp] theorem settleExhausted (m : Machine) : m.settle.exhausted = m.exhausted := by
  unfold settle
  split <;> rfl

theorem Tidy.settle (tidy : Tidy m) : Tidy m.settle :=
  tidy.congr (settleProcs m) (Nat.le_of_eq (congrArg (·.2.1) (ledgerSettle m)).symm) (settleExhausted m)

/-! Ending a process and starting a group. -/

theorem finishAt (found : m.proc? q = some p) (status : Status) :
    m.finish q status = m.modifyProc q fun _ => { p with
      finishedObject := m.invokingObject p, frames := #[], contexts := #[], handlers := #[],
      values := #[], contextTos := 0, status := status } := by
  rw [finish, found]
  exact setProcAt found rfl

theorem Tidy.finish (tidy : Tidy m) (found : m.proc? q = some p) {status : Status}
    (notWaiting : status ≠ .waiting) : Tidy (m.finish q status) := by
  rw [finishAt found]
  exact tidy.modifyProc _ found (fun bare => ⟨rfl, bare.pending, notWaiting⟩) rfl

theorem statusCountFinish (k : Status → Bool) (found : m.proc? q = some p) (status : Status) :
    (m.finish q status).statusCount k + (k p.status).toNat = m.statusCount k + (k status).toNat := by
  rw [finishAt found]
  exact statusCountModify k _ found

@[simp] theorem statusCountSettle (m : Machine) (k : Status → Bool) :
    m.settle.statusCount k = m.statusCount k := by
  rw [statusCount, statusCount, settleProcs]

theorem Tidy.startGroup (tidy : Tidy m) (g : Nat) :
    Tidy (m.startGroup g) ∧ (m.startGroup g).runningCount ≤ m.runningCount + 1 ∧
      (m.startGroup g).contenders = m.contenders := by
  unfold Machine.startGroup
  split
  · exact ⟨tidy, by omega, rfl⟩
  split
  · rename_i p first
    have mem : p ∈ m.procs.toList := by simpa using Array.mem_of_find?_eq_some first
    have chosen : p.group = g ∧ p.status = .runnable := by simpa using Array.find?_some first
    have runnable := chosen.2
    have found := procOfMem tidy.distinct mem
    let r : Process := { p with status := .running }
    -- the started process was runnable: one more running, as many contenders
    have running : (m.modifyProc p.id fun _ => r).runningCount + 0 = m.runningCount + 1 := by
      have count := statusCountModify (· == .running) (fun _ => r) found
      rwa [runnable] at count
    have contending : (m.modifyProc p.id fun _ => r).contenders + 1 = m.contenders + 1 := by
      have count := statusCountModify (fun s => s == .running || s == .runnable) (fun _ => r) found
      rwa [runnable] at count
    rw [setProcAt (r := r) found rfl]
    exact ⟨tidy.modifyProc _ found (fun bare => ⟨bare.frames, bare.pending, by simp [r]⟩) rfl,
      by omega, by omega⟩
  · exact ⟨tidy.congr rfl (Nat.le_refl _) rfl, by simp [runningCount, statusCount, emit], rfl⟩

/-! Running a bare process ends it at once. -/

theorem runOfBare (found : m.proc? q = some p) (bare : p.Bare)
    (active : ¬(p.status = .frozen ∨ p.status.isTerminal)) :
    m.run q = ((m.setProc { p with generation := p.generation + 1, status := .running }).finish
      q .ended).settle := by
  have own : p.id = q := procIdOf found
  have started := procSetFound (q := { p with generation := p.generation + 1, status := .running })
    found own
  unfold run execute
  rw [found]
  dsimp only
  rw [if_neg (by simpa using active)]
  split
  · rename_i pending
    simp [bare.pending] at pending
  · generalize m.budget = fuel
    cases fuel <;> (rw [runLoop, started]; simp [bare.frames])

theorem Tidy.runBare (tidy : Tidy m) (found : m.proc? q = some p) (running : p.status = .running) :
    Tidy (m.run q) ∧
      (∀ k, (m.run q).statusCount k + (k .running).toNat = m.statusCount k + (k .ended).toNat) ∧
      ∃ r, (m.run q).proc? q = some r ∧ r.status = .ended := by
  have bare := tidy.bare p (List.mem_of_find?_eq_some (by simpa [proc?] using found))
  have active : ¬(p.status = .frozen ∨ p.status.isTerminal) := by simp [running, Status.isTerminal]
  obtain ⟨r, hr⟩ : ∃ r : Process, r = { p with generation := p.generation + 1, status := .running } :=
    ⟨_, rfl⟩
  have begun : m.setProc r = m.modifyProc q fun _ => r := setProcAt found (by rw [hr])
  have own : p.id = q := procIdOf found
  have started : (m.setProc r).proc? q = some r := procSetFound found (by rw [hr]; exact own)
  have status : r.status = .running := by rw [hr]
  have tidy' : Tidy (m.setProc r) := begun ▸ tidy.modifyProc _ found
    (fun bare => by rw [hr]; exact ⟨bare.frames, bare.pending, by simp⟩) (by rw [hr])
  rw [runOfBare found bare active, ← hr]
  refine ⟨(tidy'.finish started (by simp)).settle, fun k => ?_, ?_⟩
  · -- starting it changes no count; ending it moves it from running to ended
    have start := statusCountModify k (fun _ => r) found
    have stop := statusCountFinish k started .ended
    rw [running, status, ← begun] at start
    rw [status] at stop
    rw [statusCountSettle]
    omega
  · exact ⟨_, (procOfProcs (settleProcs _) q).trans (finishFound started .ended), rfl⟩

/-! Running the list. -/

theorem runningNone (none : m.procs.find? (·.status == .running) = none) : m.runningCount = 0 := by
  unfold runningCount statusCount
  rw [List.countP_eq_zero]
  intro p mem
  simpa using Array.find?_eq_none.mp none p (by simpa using mem)

theorem Tidy.go : ∀ (fuel : Nat) (m : Machine), Tidy m → m.contenders < fuel →
    Tidy (runList.go m fuel) ∧ (runList.go m fuel).runningCount = 0
  | 0, _, _, bound => absurd bound (Nat.not_lt_zero _)
  | fuel + 1, m, tidy, bound => by
    rw [runList.go.eq_2, if_neg (by simp [tidy.within])]
    split
    · exact ⟨tidy, runningNone ‹_›⟩
    rename_i p first
    have running : p.status = .running := by simpa using Array.find?_some first
    have found := procOfMem tidy.distinct (by simpa using Array.mem_of_find?_eq_some first)
    -- a round ends the first running process and starts at most one runnable one in its
    -- place: one contender fewer, so the contenders bound the rounds
    obtain ⟨tidy₁, counts, r, ended, status⟩ := tidy.runBare found running
    obtain ⟨tidy₂, -, contending⟩ := tidy₁.startGroup r.group
    have fewer : (m.run p.id).contenders + 1 = m.contenders + 0 := counts _
    simp only [tidy₁.within, ended, status]
    exact Tidy.go fuel _ tidy₂ (by omega)

theorem Tidy.runList (tidy : Tidy m) : Tidy m.runList ∧ m.runList.runningCount = 0 := by
  refine tidy.go _ m (Nat.lt_succ_of_le ?_)
  unfold contenders statusCount
  simpa using List.countP_le_length (l := m.procs.toList)

/-! The other operations. -/

theorem Tidy.bareOf (tidy : Tidy m) (found : m.proc? q = some p) : p.Bare :=
  tidy.bare p (List.mem_of_find?_eq_some (by simpa [proc?] using found))

theorem Tidy.setProc (tidy : Tidy m) (found : m.proc? q = some p) {r : Process}
    (same : r.id = p.id) (bare : p.Bare → r.Bare) :
    Tidy (m.setProc r) ∧
      (m.setProc r).runningCount + (p.status == .running).toNat =
        m.runningCount + (r.status == .running).toNat := by
  rw [setProcAt found same]
  exact ⟨tidy.modifyProc _ found bare same, statusCountModify _ _ found⟩

theorem Tidy.enroll (tidy : Tidy m) {r : Process} (bare : r.Bare) (new : r.id = m.nextPid)
    {ps : Array Process} (perm : ps.toList.Perm (r :: m.procs.toList)) :
    Tidy { m with procs := ps, nextPid := m.nextPid + 1 } := by
  refine ⟨fun x mem => ?_, ?_, fun x mem => ?_, tidy.within⟩
  · rcases List.mem_cons.mp (perm.subset mem) with rfl | old
    · exact bare
    · exact tidy.bare x old
  · have fresh : r.id ∉ m.procs.toList.map (·.id) := fun mem => by
      obtain ⟨x, old, same⟩ := List.mem_map.mp mem
      have := tidy.fresh x old
      omega
    have distinct : (m.procs.toList.map (·.id)).Nodup := tidy.distinct
    exact (perm.map (·.id)).nodup_iff.mpr (List.nodup_cons.mpr ⟨fresh, distinct⟩)
  · rcases List.mem_cons.mp (perm.subset mem) with rfl | old
    · dsimp only
      omega
    · exact Nat.lt_succ_of_lt (tidy.fresh x old)

theorem createMakes (m : Machine) (name : String) :
    ∃ r : Process, r.Bare ∧ r.id = m.nextPid ∧ r.status = .suspended ∧ ∃ i,
      (m.create name).1 = { m with procs := m.procs.insertIdxIfInBounds i r, nextPid := m.nextPid + 1 } :=
  ⟨_, ⟨rfl, rfl, by simp⟩, rfl, rfl, _, rfl⟩

theorem Tidy.create (tidy : Tidy m) (name : String) :
    Tidy (m.create name).1 ∧ (m.create name).1.runningCount = m.runningCount := by
  obtain ⟨r, bare, new, idle, i, made⟩ := createMakes m name
  rw [made]
  unfold Array.insertIdxIfInBounds
  split
  · rename_i within
    have perm : (m.procs.insertIdx i r within).toList.Perm (r :: m.procs.toList) := by
      rw [Array.toList_insertIdx]
      exact List.perm_insertIdx r _ (by simpa using within)
    refine ⟨tidy.enroll bare new perm, ?_⟩
    unfold runningCount statusCount
    dsimp only
    rw [perm.countP_eq, List.countP_cons, idle]
    rfl
  · exact ⟨tidy.congr rfl (Nat.le_succ _) rfl, rfl⟩

theorem Tidy.allocateGroup (tidy : Tidy m) : Tidy m.allocateGroup.1 := tidy.congr rfl (Nat.le_refl _) rfl

theorem Tidy.resume (tidy : Tidy m) (pid g : Nat) :
    Tidy (m.resume pid g).1 ∧ (m.resume pid g).1.runningCount ≤ m.runningCount := by
  unfold Machine.resume
  split
  · rename_i p found
    split
    · -- a suspended or runnable process becomes runnable: no more running
      have step := tidy.setProc found (r := { p with status := .runnable, group := g }) rfl
        fun bare => ⟨bare.frames, bare.pending, by simp⟩
      refine ⟨step.1, ?_⟩
      have count := step.2
      simp [Bool.beq_eq_decide_eq] at count
      dsimp only
      omega
    · exact ⟨tidy, (Nat.le_refl _)⟩
  · exact ⟨tidy, (Nat.le_refl _)⟩

theorem Tidy.remap (tidy : Tidy m) (h : Process → Process) (bare : ∀ p, p.Bare → (h p).Bare)
    (same : ∀ p, (h p).id = p.id) (running : ∀ p, ((h p).status == .running) = (p.status == .running)) :
    Tidy { m with procs := m.procs.map h } ∧
      ({ m with procs := m.procs.map h } : Machine).runningCount = m.runningCount :=
  ⟨tidy.mapProcs h bare same, countMapProcs m _ h running⟩

theorem Tidy.resumeSuspended (tidy : Tidy m) (g : Nat) :
    Tidy (m.resumeSuspended g).1 ∧ (m.resumeSuspended g).1.runningCount = m.runningCount := by
  refine tidy.remap _ (fun p bare => ?_) (fun p => ?_) (fun p => ?_)
  · split
    · exact ⟨bare.frames, bare.pending, by simp⟩
    · exact bare
  · split <;> rfl
  · -- only suspended or runnable processes change, and they become runnable
    split
    · rename_i eligible
      cases hs : p.status <;> simp_all
    · rfl

theorem Tidy.join (tidy : Tidy m) (pid g : Nat) :
    Tidy (m.join pid g).1 ∧ (m.join pid g).1.runningCount = m.runningCount := by
  unfold Machine.join
  split
  · exact ⟨tidy, rfl⟩
  · split
    · exact ⟨tidy, rfl⟩
    · refine tidy.remap _ (fun q bare => ?_) (fun q => ?_) (fun q => ?_)
      · split
        · exact ⟨bare.frames, bare.pending, bare.notWaiting⟩
        · exact bare
      all_goals split <;> rfl

theorem Tidy.continueProcess (tidy : Tidy m) (pid : Nat) : (m.continueProcess pid).1 = m := by
  unfold Machine.continueProcess
  split
  · -- no process waits
    rename_i p found
    rw [if_neg (by simpa using (tidy.bareOf found).notWaiting)]
  · rfl

theorem Tidy.continueWithFailure (tidy : Tidy m) (pid : Nat) (message : String) :
    (m.continueWithFailure pid message).1 = m := by
  unfold Machine.continueWithFailure
  split
  · rename_i p found
    rw [if_neg (by simpa using (tidy.bareOf found).notWaiting)]
  · rfl

theorem Tidy.terminate (tidy : Tidy m) (pid : Nat) :
    Tidy (m.terminate pid).1 ∧ (m.terminate pid).1.runningCount ≤ m.runningCount := by
  unfold Machine.terminate
  split
  · exact ⟨tidy, (Nat.le_refl _)⟩
  rename_i p found
  have ended : Tidy (m.finish pid .terminated).settle := (tidy.finish found (by simp)).settle
  have count : (m.finish pid .terminated).settle.runningCount + (p.status == .running).toNat =
      m.runningCount + 0 := by
    rw [runningCount, statusCountSettle]
    exact statusCountFinish _ found .terminated
  dsimp only
  split
  · -- the slot is handed on only by a holder, and a holder that does not wait runs
    rename_i holder
    have running : p.status = .running := by
      have := (tidy.bareOf found).notWaiting
      simp only [Bool.or_eq_true, beq_iff_eq] at holder
      tauto
    obtain ⟨started, more, -⟩ := ended.startGroup p.group
    rw [running] at count
    refine ⟨started, ?_⟩
    simp at count
    dsimp only
    omega
  · refine ⟨ended, ?_⟩
    dsimp only
    omega

theorem swapPerm (xs : Array Process) (i j : Nat) : (xs.swapIfInBounds i j).Perm xs := by
  unfold Array.swapIfInBounds
  split
  · split
    · exact Array.swap_perm _ _
    · exact .refl _
  · exact .refl _

theorem backPerm (prio : Int) (ps : Array Process) (i fuel : Nat) :
    (handlePriorityChange.back prio ps i fuel).1.Perm ps := by
  induction fuel generalizing ps i with
  | zero => exact .refl _
  | succ fuel ih =>
    unfold handlePriorityChange.back
    split
    · exact (ih _ _).trans (swapPerm ps _ _)
    · exact .refl _

theorem forwardPerm (prio : Int) (ps : Array Process) (i fuel : Nat) :
    (handlePriorityChange.forward prio ps i fuel).Perm ps := by
  induction fuel generalizing ps i with
  | zero => exact .refl _
  | succ fuel ih =>
    unfold handlePriorityChange.forward
    split
    · exact (ih _ _).trans (swapPerm ps _ _)
    · exact .refl _

theorem handlePriorityChangePerm (m : Machine) (pid : Nat) :
    ∃ ps : Array Process, ps.Perm m.procs ∧ m.handlePriorityChange pid = { m with procs := ps } := by
  unfold handlePriorityChange
  split
  · exact ⟨m.procs, .refl _, rfl⟩
  · rename_i i _
    dsimp only
    generalize ((m.procs[i]?).map (·.priority)).getD 0 = prio
    have back := backPerm prio m.procs i m.procs.size
    rcases hb : handlePriorityChange.back prio m.procs i m.procs.size with ⟨ps, j⟩
    rw [hb] at back
    exact ⟨_, (forwardPerm prio ps j ps.size).trans back, rfl⟩

theorem Tidy.setPriority (tidy : Tidy m) (pid : Nat) (priority : Int) :
    Tidy (m.setPriority pid priority).1 ∧
      (m.setPriority pid priority).1.runningCount = m.runningCount := by
  unfold Machine.setPriority
  split
  · rename_i p found
    obtain ⟨changed, count⟩ := tidy.setProc found (r := { p with priority := priority }) rfl
      fun bare => ⟨bare.frames, bare.pending, bare.notWaiting⟩
    obtain ⟨ps, perm, moved⟩ := handlePriorityChangePerm (m.setProc { p with priority := priority }) pid
    rw [moved]
    refine ⟨changed.perm perm, ?_⟩
    dsimp only at count ⊢
    unfold runningCount at count ⊢
    rw [statusCountPerm perm]
    omega
  · exact ⟨tidy, rfl⟩

theorem foldlKeeps (xs : Array Process) (f : Machine → Process → Machine)
    (keeps : ∀ m x, (f m x).procs = m.procs ∧ (f m x).nextPid = m.nextPid ∧
      (f m x).exhausted = m.exhausted) (m : Machine) :
    (xs.foldl f m).procs = m.procs ∧ (xs.foldl f m).nextPid = m.nextPid ∧
      (xs.foldl f m).exhausted = m.exhausted := by
  refine Array.foldl_induction
    (fun _ (m' : Machine) => m'.procs = m.procs ∧ m'.nextPid = m.nextPid ∧ m'.exhausted = m.exhausted)
    ⟨rfl, rfl, rfl⟩ fun i m' kept => ?_
  obtain ⟨procs, next, within⟩ := keeps m' xs[i]
  exact ⟨procs.trans kept.1, next.trans kept.2.1, within.trans kept.2.2⟩

theorem removeTerminatedKeeps (m : Machine) :
    m.removeTerminated.1.procs = m.procs.filter (fun p => !p.status.isTerminal) ∧
      m.removeTerminated.1.nextPid = m.nextPid ∧ m.removeTerminated.1.exhausted = m.exhausted := by
  unfold Machine.removeTerminated
  dsimp only
  generalize reported : Array.foldl _ m _ = m₁
  obtain ⟨procs₁, next₁, within₁⟩ : m₁.procs = m.procs ∧ m₁.nextPid = m.nextPid ∧ m₁.exhausted = m.exhausted :=
    reported ▸ foldlKeeps _ _ (fun m x => by split <;> exact ⟨rfl, rfl, rfl⟩) m
  obtain ⟨procs₂, next₂, within₂⟩ := foldlKeeps (m.procs.filter (·.status.isTerminal))
    (fun m p => { m with locks := m.locks.disown p.id }) (fun _ _ => ⟨rfl, rfl, rfl⟩)
    { m₁ with procs := m₁.procs.filter fun p => !p.status.isTerminal }
  generalize Array.foldl _ _ _ = m₂ at procs₂ next₂ within₂
  dsimp only at procs₂ next₂ within₂
  rw [procs₁] at procs₂
  exact ⟨(settleProcs m₂).trans procs₂, (congrArg (·.2.1) (ledgerSettle m₂)).trans (next₂.trans next₁),
    (settleExhausted m₂).trans (within₂.trans within₁)⟩

theorem Tidy.removeTerminated (tidy : Tidy m) :
    Tidy m.removeTerminated.1 ∧ m.removeTerminated.1.runningCount = m.runningCount := by
  obtain ⟨procs, next, within⟩ := removeTerminatedKeeps m
  have kept : (m.procs.filter fun p => !p.status.isTerminal).toList.Sublist m.procs.toList := by
    rw [Array.toList_filter]
    exact List.filter_sublist
  refine ⟨⟨fun x mem => ?_, ?_, fun x mem => ?_, within.trans tidy.within⟩, ?_⟩
  · rw [procs] at mem
    exact tidy.bare x (kept.subset mem)
  · unfold Distinct
    rw [procs]
    exact (kept.map _).nodup tidy.distinct
  · rw [procs] at mem
    rw [next]
    exact tidy.fresh x (kept.subset mem)
  · rw [runningCount, statusCount, procs]
    simp only [Array.toList_filter, List.countP_filter]
    congr 1
    funext p
    cases hs : p.status <;> rfl

/-! Every operation, and every sequence of them. -/

theorem Tidy.perform (tidy : Tidy m) (op : ListOp) :
    Tidy (m.perform op) ∧ (m.perform op).runningCount ≤ startsAfter m.runningCount op := by
  cases op with
  | create name =>
    obtain ⟨made, count⟩ := tidy.create name
    exact ⟨made, Nat.le_of_eq count⟩
  | allocateGroup => exact ⟨tidy.allocateGroup, (Nat.le_refl _)⟩
  | resume pid g => exact tidy.resume pid g
  | resumeSuspended g =>
    obtain ⟨resumed, count⟩ := tidy.resumeSuspended g
    exact ⟨resumed, Nat.le_of_eq count⟩
  | join pid g =>
    obtain ⟨joined, count⟩ := tidy.join pid g
    exact ⟨joined, Nat.le_of_eq count⟩
  | startGroup g =>
    obtain ⟨started, more, -⟩ := tidy.startGroup g
    exact ⟨started, more⟩
  | run =>
    obtain ⟨ran, none⟩ := tidy.runList
    exact ⟨ran, Nat.le_of_eq none⟩
  | continueProcess pid =>
    simp only [Machine.perform, tidy.continueProcess pid]
    exact ⟨tidy, (Nat.le_refl _)⟩
  | continueWithFailure pid message =>
    simp only [Machine.perform, tidy.continueWithFailure pid message]
    exact ⟨tidy, (Nat.le_refl _)⟩
  | terminate pid => exact tidy.terminate pid
  | setPriority pid priority =>
    obtain ⟨moved, count⟩ := tidy.setPriority pid priority
    exact ⟨moved, Nat.le_of_eq count⟩
  | removeTerminated =>
    obtain ⟨removed, count⟩ := tidy.removeTerminated
    exact ⟨removed, Nat.le_of_eq count⟩

theorem Tidy.performAll (ops : List ListOp) :
    ∀ {m : Machine} {n : Nat}, Tidy m → m.runningCount ≤ n →
      Tidy (m.performAll ops) ∧ (m.performAll ops).runningCount ≤ ops.foldl startsAfter n := by
  induction ops with
  | nil => exact fun tidy bound => ⟨tidy, bound⟩
  | cons op ops ih =>
    intro m n tidy bound
    obtain ⟨done, count⟩ := tidy.perform op
    -- the bound moves with the count: a start adds one, a run resets it
    have step : (m.perform op).runningCount ≤ startsAfter n op := by
      cases op <;> simp only [startsAfter] at count ⊢ <;> omega
    exact ih done step

theorem Tidy.slotBound (tidy : Tidy m) {n : Nat} (bound : m.runningCount ≤ n) : m.SlotBound n := by
  have noneWaits : ∀ p ∈ m.procs.toList, p.status ≠ .waiting := fun p mem => (tidy.bare p mem).notWaiting
  refine ⟨noneWaits, (runningIdsLength m) ▸ bound, fun g => ?_⟩
  -- with no process waiting, a slot holder is a running process
  have holding : (m.slotHolders g).length ≤ m.runningCount := by
    simp only [slotHolders, idsWhere, List.length_map, ← List.countP_eq_length_filter, runningCount,
      statusCount]
    refine List.countP_mono_left fun p mem holds => ?_
    have := noneWaits p mem
    simp_all
  omega

/-- Whatever the public operations do to an empty list, no process waits and the processes
holding a slot, in all and in any one group, are at most the groups started since the list
last ran: each start may add one, and running the list leaves none. -/
theorem runningWithinStarts (m : Machine) (empty : m.procs = #[]) (fresh : m.exhausted = false)
    (ops : List ListOp) : (m.performAll ops).SlotBound (startsSinceRun ops) := by
  have tidy : Tidy m := ⟨by simp [empty], by simp [Distinct, empty], by simp [empty], fresh⟩
  have idle : m.runningCount ≤ 0 := by simp [runningCount, statusCount, empty]
  obtain ⟨tidy', bound⟩ := tidy.performAll ops idle
  exact tidy'.slotBound bound

theorem twoStartsBoundTwoHolders :
    ∃ m : Machine, m.procs = #[] ∧ m.exhausted = false ∧
      (m.performAll [.create "a", .create "b", .resume 1 1, .resume 2 1, .startGroup 1,
        .startGroup 1]).SlotBound
        (startsSinceRun [.create "a", .create "b", .resume 1 1, .resume 2 1, .startGroup 1,
          .startGroup 1]) :=
  ⟨{}, rfl, rfl, runningWithinStarts {} rfl rfl _⟩

/-- Starting group 1 twice sets both of its members running. -/
theorem twoStartsTwoRunning :
    let m := ({} : Machine).performAll [.create "a", .create "b", .resume 1 1, .resume 2 1,
      .startGroup 1, .startGroup 1]
    m.runningIds = [1, 2] ∧ m.slotHolders 1 = [1, 2] := by
  decide +kernel

end Machine

end ScriptEngine
