import ScriptEngine.Proofs.ListOperations
/-!
Priority order of the process list. The list is kept in ascending priority order. A new
process goes after every process of the same or lower priority and before every process of
a higher one: the binary search that finds its place is exact on an ordered list. A process
whose priority changed is moved back past higher priorities and then forward past lower
ones, which puts it where it belongs. Every other operation keeps the processes that remain
in the order they were in: the scheduler's operations and runs change statuses and groups
only, and reaping drops processes without moving the others. Ids stay distinct, and each new
process gets an id above every id given before it.
-/
namespace ScriptEngine

namespace Process

/-- What the order of the list is about: a process's id and its priority. -/
def rank (p : Process) : Nat × Int := (p.id, p.priority)

end Process

namespace Machine

open Process

/-- Each process's id and priority, in list order. -/
def lineup (m : Machine) : List (Nat × Int) := m.procs.toList.map rank

def ids (m : Machine) : List Nat := m.lineup.map Prod.fst

/-- The list is in ascending priority order, and its ids are distinct and below the next id
to be given. -/
structure Ordered (m : Machine) : Prop where
  sorted : m.lineup.Pairwise fun a b => a.2 ≤ b.2
  distinct : m.ids.Nodup
  fresh : ∀ a ∈ m.lineup, a.1 < m.nextPid

/-- `m'` has the processes of `m` in the same order with the same priorities, and gives the
same next id. -/
structure SameLineup (m m' : Machine) : Prop where
  lineup : m'.lineup = m.lineup
  nextPid : m'.nextPid = m.nextPid

variable {m m' m'' : Machine} {pid q : Nat} {p : Process}

theorem SameLineup.refl (m : Machine) : SameLineup m m := ⟨rfl, rfl⟩

theorem SameLineup.trans (h₁ : SameLineup m m') (h₂ : SameLineup m' m'') : SameLineup m m'' :=
  ⟨h₂.lineup.trans h₁.lineup, h₂.nextPid.trans h₁.nextPid⟩

theorem SameLineup.ofProcs (procs : m'.procs = m.procs) (next : m'.nextPid = m.nextPid) :
    SameLineup m m' :=
  ⟨by simp only [Machine.lineup, procs], next⟩

theorem SameLineup.ids (same : SameLineup m m') : m'.ids = m.ids := by
  unfold Machine.ids
  rw [same.lineup]

theorem SameLineup.ordered (same : SameLineup m m') (ord : m.Ordered) : m'.Ordered where
  sorted := same.lineup ▸ ord.sorted
  distinct := by
    unfold Machine.ids
    rw [same.lineup]
    exact ord.distinct
  fresh := by
    rw [same.lineup, same.nextPid]
    exact ord.fresh

theorem idsEq (m : Machine) : m.ids = m.procs.toList.map (·.id) := by
  simp [ids, lineup, rank, Function.comp_def]

theorem Ordered.procsDistinct (ord : m.Ordered) : m.Distinct := by
  unfold Distinct
  rw [← idsEq]
  exact ord.distinct

theorem SameLineup.distinct (same : SameLineup m m') (distinct : m.Distinct) : m'.Distinct := by
  unfold Distinct at distinct ⊢
  rwa [← idsEq, Machine.ids, same.lineup, ← Machine.ids, idsEq]

/-! Operations that keep the lineup. -/

theorem lineupSeen (m : Machine) (pid : Nat) :
    m.lineup = (m.seen pid).map fun s => (s.1.1, s.1.2.2) := by
  simp [lineup, seen, seenBy, place, rank, Function.comp_def]

theorem SameLineup.ofAside (aside : Aside pid m m') : SameLineup m m' :=
  ⟨by rw [lineupSeen m' pid, lineupSeen m pid, aside.seen], congrArg (·.2.1) aside.ledger⟩

theorem SameLineup.settle (m : Machine) : SameLineup m m.settle :=
  .ofProcs (settleProcs m) (congrArg (·.2.1) (ledgerSettle m))

theorem sameSetFound (found : m.proc? q = some p) {r : Process} (same : r.rank = p.rank) :
    SameLineup m (m.setProc r) := by
  have found' : m.procs.toList.find? (fun p => p.id == q) = some p := by simpa [proc?] using found
  rw [setProcAt found (congrArg Prod.fst same)]
  refine ⟨?_, modifyProcNextPid m q _⟩
  rw [lineup, lineup, modifyProcFirst]
  simpa using mapModifyFirst rank q (fun _ => r) m.procs.toList fun p' found'' => by
    rw [found', Option.some.injEq] at found''
    exact found'' ▸ same

theorem sameMapProcs (h : Process → Process) (keep : ∀ p, (h p).rank = p.rank) :
    SameLineup m { m with procs := m.procs.map h } :=
  ⟨by simp [lineup, Function.comp_def, keep], rfl⟩

theorem sameStartGroup (distinct : m.Distinct) (g : Nat) : SameLineup m (m.startGroup g) := by
  unfold startGroup
  split
  · exact .refl m
  split
  · rename_i p first
    have mem : p ∈ m.procs.toList := by simpa using Array.mem_of_find?_eq_some first
    exact sameSetFound (procOfMem distinct mem) rfl
  · exact .ofProcs rfl rfl

theorem sameRunListGo : ∀ (fuel : Nat) (m : Machine), m.Distinct → SameLineup m (runList.go m fuel)
  | 0, m, _ => .refl m
  | fuel + 1, m, distinct => by
    rw [runList.go.eq_2]
    split
    · exact .refl m
    split
    · exact .refl m
    rename_i p _
    have ran : SameLineup m (m.run p.id) := .ofAside (asideExecute m p.id false)
    have distinct₁ := ran.distinct distinct
    dsimp only
    split
    · exact ran
    split
    · exact ran.trans (sameRunListGo fuel _ distinct₁)
    rename_i r _
    -- a process left runnable or running is failed first; then its group moves on
    have failed : SameLineup (m.run p.id) ((m.run p.id).failWith r.id
        "Process returned while still active").settle :=
      (SameLineup.ofAside (asideFailWith _)).trans (.settle _)
    have afterFail := failed.trans (sameStartGroup (failed.distinct distinct₁) r.group)
    have afterStop := sameStartGroup distinct₁ r.group
    split
    · exact ran.trans (sameRunListGo fuel _ distinct₁)
    · exact ran.trans (afterFail.trans (sameRunListGo fuel _ (afterFail.distinct distinct₁)))
    · exact ran.trans (afterFail.trans (sameRunListGo fuel _ (afterFail.distinct distinct₁)))
    · exact ran.trans (afterStop.trans (sameRunListGo fuel _ (afterStop.distinct distinct₁)))

theorem sameRunList (distinct : m.Distinct) : SameLineup m m.runList :=
  sameRunListGo _ m distinct


/-! The place of a new process: the binary search is exact on an ordered list. -/

section Search

variable {α : Type} (xs : Array α) (before : α → Bool) (k : Nat)

/-- The window the search narrows: the answer `k` lies between `base` and `base + size`, the
window lies within the array, and the fuel lasts until it is one element wide. -/
structure Window (base size fuel : Nat) : Prop where
  low : base ≤ k
  high : k ≤ base + size
  inside : base + size ≤ xs.size
  wide : 0 < size
  lasts : size ≤ fuel + 1

variable {xs before k}

theorem windowGo (split : ∀ i (h : i < xs.size), before xs[i] = true ↔ i < k) :
    ∀ fuel base size, Window xs k base size fuel →
      insertPosition.go xs before base size fuel ≤ k ∧
        k ≤ insertPosition.go xs before base size fuel + 1 ∧
        insertPosition.go xs before base size fuel < xs.size
  | 0, base, size, w => by
    unfold insertPosition.go
    have := w.lasts
    have := w.wide
    exact ⟨w.low, by have := w.high; omega, by have := w.inside; omega⟩
  | fuel + 1, base, size, w => by
    unfold insertPosition.go
    split
    · have := w.wide
      exact ⟨w.low, by have := w.high; omega, by have := w.inside; omega⟩
    rename_i wider
    -- the probe at `mid` tells on which side of it the answer lies
    have inside : base + size / 2 < xs.size := by have := w.inside; omega
    have probe : xs[base + size / 2]?.any before = decide (base + size / 2 < k) := by
      rw [Array.getElem?_eq_getElem inside, Option.any_some]
      exact Bool.eq_iff_iff.mpr (by simpa using split _ inside)
    dsimp only
    rw [probe]
    apply windowGo split fuel
    by_cases below : base + size / 2 < k
    · simp only [below, decide_true, if_true]
      exact ⟨by omega, by have := w.high; omega, by have := w.inside; omega, by omega,
        by have := w.lasts; omega⟩
    · simp only [below, decide_false, Bool.false_eq_true, if_false]
      exact ⟨w.low, by omega, by have := w.inside; omega, by omega, by have := w.lasts; omega⟩

theorem insertPositionEq (hk : k ≤ xs.size) (split : ∀ i (h : i < xs.size), before xs[i] = true ↔ i < k) :
    insertPosition xs before = k := by
  unfold insertPosition
  split
  · rename_i empty
    have : xs.size = 0 := by simpa using empty
    omega
  rename_i nonempty
  have start : Window xs k 0 xs.size xs.size :=
    ⟨Nat.zero_le _, by omega, by omega, by simp only [beq_iff_eq] at nonempty; omega, by omega⟩
  obtain ⟨low, high, inside⟩ := windowGo split xs.size 0 xs.size start
  dsimp only
  rw [Array.getElem?_eq_getElem inside, Option.any_some]
  by_cases last : insertPosition.go xs before 0 xs.size xs.size < k
  · rw [if_pos ((split _ inside).mpr last)]
    omega
  · rw [if_neg (fun h => last ((split _ inside).mp h))]
    omega

end Search

theorem sortedProcs (ord : m.Ordered) : m.procs.toList.Pairwise fun p q => p.priority ≤ q.priority := by
  simpa [lineup, rank, List.pairwise_map] using ord.sorted

theorem splitAbove (x : Int) : ∀ {l : List Process}, l.Pairwise (fun p q => p.priority ≤ q.priority) →
    ∃ low high, l = low ++ high ∧ (∀ q ∈ low, q.priority ≤ x) ∧ ∀ q ∈ high, x < q.priority
  | [], _ => ⟨[], [], rfl, by simp, by simp⟩
  | a :: l, sorted => by
    obtain ⟨below, rest⟩ := List.pairwise_cons.mp sorted
    by_cases ha : a.priority ≤ x
    · obtain ⟨low, high, rfl, atMost, above⟩ := splitAbove x rest
      refine ⟨a :: low, high, rfl, fun q mem => ?_, above⟩
      rcases List.mem_cons.mp mem with rfl | mem
      · exact ha
      · exact atMost q mem
    · refine ⟨[], a :: l, rfl, by simp, fun q mem => ?_⟩
      rcases List.mem_cons.mp mem with rfl | mem
      · omega
      · have := below q mem
        omega

theorem insertIdxAppend {α : Type} (x : α) (after : List α) :
    ∀ before : List α, (before ++ after).insertIdx before.length x = before ++ x :: after
  | [] => List.insertIdx_zero
  | a :: before => by
    rw [List.cons_append, List.length_cons, List.insertIdx_succ_cons, insertIdxAppend x after before]
    rfl

/-- The process `create` makes. -/
def newProcess (m : Machine) (name : String) : Process :=
  { id := m.nextPid, name := name, priority := m.config.defaultPriority, limits := m.config.limits }

theorem createPlaces (ord : m.Ordered) (name : String) :
    ∃ low high, m.procs.toList = low ++ high ∧
      (m.create name).1.procs.toList = low ++ m.newProcess name :: high ∧
      (∀ q ∈ low, q.priority ≤ m.config.defaultPriority) ∧
      ∀ q ∈ high, m.config.defaultPriority < q.priority := by
  obtain ⟨low, high, split, atMost, above⟩ := splitAbove m.config.defaultPriority (sortedProcs ord)
  refine ⟨low, high, split, ?_, atMost, above⟩
  have within : low.length ≤ m.procs.size := by simp [← Array.length_toList, split]
  -- exactly the first `low.length` processes go before the new one
  have place : insertPosition m.procs (fun q => decide (q.priority ≤ m.config.defaultPriority)) =
      low.length := by
    refine insertPositionEq within fun i h => ?_
    rw [← Array.getElem_toList (h := by simpa using h)]
    have h' : i < (low ++ high).length := by rw [← split]; simpa using h
    simp only [split, decide_eq_true_eq]
    by_cases first : i < low.length
    · rw [List.getElem_append_left first]
      exact ⟨fun _ => first, fun _ => atMost _ (List.getElem_mem first)⟩
    · have second : i - low.length < high.length := by simp at h'; omega
      rw [List.getElem_append_right (by omega)]
      have := above _ (List.getElem_mem second)
      exact ⟨fun h => by omega, fun h => absurd h first⟩
  simp only [create, place, Array.insertIdxIfInBounds, dif_pos within, Array.toList_insertIdx, split]
  exact insertIdxAppend _ high low

theorem orderedOfProcs (sorted : m.procs.toList.Pairwise fun p q => p.priority ≤ q.priority)
    (distinct : m.Distinct) (fresh : ∀ p ∈ m.procs.toList, p.id < m.nextPid) : m.Ordered where
  sorted := by simpa [lineup, rank, List.pairwise_map] using sorted
  distinct := by
    rw [idsEq]
    exact distinct
  fresh := by simpa [lineup, rank] using fresh

theorem freshProcs (ord : m.Ordered) : ∀ p ∈ m.procs.toList, p.id < m.nextPid := by
  simpa [lineup, rank] using ord.fresh

theorem Ordered.create (ord : m.Ordered) (name : String) : (m.create name).1.Ordered := by
  obtain ⟨low, high, split, made, atMost, above⟩ := createPlaces ord name
  have sorted := sortedProcs ord
  have distinct : (m.procs.toList.map (·.id)).Nodup := ord.procsDistinct
  have fresh := freshProcs ord
  rw [split] at sorted distinct fresh
  obtain ⟨sortedLow, sortedHigh, across⟩ := List.pairwise_append.mp sorted
  refine orderedOfProcs ?_ ?_ ?_
  · rw [made]
    refine List.pairwise_append.mpr ⟨sortedLow, List.pairwise_cons.mpr ⟨fun q mem => ?_, sortedHigh⟩,
      fun a memA b memB => ?_⟩
    · exact Int.le_of_lt (above q mem)
    · rcases List.mem_cons.mp memB with rfl | memB
      · exact atMost a memA
      · exact across a memA b memB
  · -- the new id is above every old one, so it is none of them
    have new : (m.newProcess name).id ∉ (low ++ high).map (·.id) := fun mem => by
      obtain ⟨q, old, same⟩ := List.mem_map.mp mem
      have := fresh q old
      simp only [newProcess] at same
      omega
    unfold Distinct
    rw [made]
    have perm := (@List.perm_middle _ (m.newProcess name) low high).map (·.id)
    exact perm.nodup_iff.mpr (List.nodup_cons.mpr ⟨new, distinct⟩)
  · intro q mem
    rw [made] at mem
    rcases List.mem_append.mp mem with old | mem
    · exact Nat.lt_succ_of_lt (fresh q (List.mem_append_left _ old))
    rcases List.mem_cons.mp mem with rfl | old
    · exact Nat.lt_succ_self _
    · exact Nat.lt_succ_of_lt (fresh q (List.mem_append_right _ old))

/-! A process whose priority changed moves to its place. -/

theorem swapNext {α : Type} (L R : List α) (a b : α) :
    (L ++ a :: b :: R).toArray.swapIfInBounds L.length (L.length + 1) = (L ++ b :: a :: R).toArray := by
  have hi : L.length < (L ++ a :: b :: R).toArray.size := by simp
  have hj : L.length + 1 < (L ++ a :: b :: R).toArray.size := by simp
  rw [Array.swapIfInBounds, dif_pos hi, dif_pos hj]
  apply Array.toList_inj.mp
  rw [Array.toList_swap]
  simp [List.set_append_right]

section Moving

variable (prio : Int) (x : Process)

theorem backMoves (hx : x.priority = prio) :
    ∀ fuel (L R : List Process), L.length ≤ fuel →
      ∃ L' M, L = L' ++ M ∧ (∀ a ∈ M, prio < a.priority) ∧ (∀ l ∈ L'.getLast?, l.priority ≤ prio) ∧
        handlePriorityChange.back prio (L ++ x :: R).toArray L.length fuel =
          ((L' ++ x :: (M ++ R)).toArray, L'.length)
  | 0, L, R, short => by
    obtain rfl : L = [] := List.eq_nil_of_length_eq_zero (by omega)
    exact ⟨[], [], rfl, by simp, by simp, rfl⟩
  | fuel + 1, L, R, short => by
    unfold handlePriorityChange.back
    rcases List.eq_nil_or_concat L with rfl | ⟨L₀, a, rfl⟩
    · exact ⟨[], [], rfl, by simp, by simp, by simp⟩
    have ps : (L₀.concat a ++ x :: R) = L₀ ++ a :: x :: R := by simp
    have before : ((L₀.concat a ++ x :: R).toArray[(L₀.concat a).length - 1]?.map (·.priority)).getD prio =
        a.priority := by simp
    rw [before]
    by_cases higher : a.priority > prio
    · -- `a` moves behind the process, which goes on back from `L₀`
      have step : (L₀.concat a ++ x :: R).toArray.swapIfInBounds ((L₀.concat a).length - 1)
          (L₀.concat a).length = (L₀ ++ x :: a :: R).toArray := by
        rw [ps, List.length_concat, Nat.add_sub_cancel]
        exact swapNext L₀ R a x
      obtain ⟨L', M, split, above, last, moved⟩ := backMoves hx fuel L₀ (a :: R) (by simp at short; omega)
      refine ⟨L', M ++ [a], by simp [split], fun b mem => ?_, last, ?_⟩
      · rcases List.mem_append.mp mem with mem | mem
        · exact above b mem
        · rw [List.mem_singleton.mp mem]
          exact higher
      · simp only [List.length_concat, Nat.lt_add_one_iff, Nat.zero_le, decide_true, higher,
          Bool.and_self, if_true] at step ⊢
        rw [step, Nat.add_sub_cancel, moved]
        simp
    · refine ⟨L₀.concat a, [], by simp, by simp, by simpa using (Int.not_lt.mp higher), ?_⟩
      simp [higher]

theorem forwardMoves (hx : x.priority = prio) :
    ∀ fuel (L R : List Process), R.length ≤ fuel → (∀ l ∈ L.getLast?, l.priority ≤ prio) →
      ∃ M R', R = M ++ R' ∧ (∀ a ∈ M, a.priority < prio) ∧
        (∀ l ∈ (L ++ M).getLast?, l.priority ≤ prio) ∧ (∀ r ∈ R'.head?, prio ≤ r.priority) ∧
        handlePriorityChange.forward prio (L ++ x :: R).toArray L.length fuel =
          (L ++ M ++ x :: R').toArray
  | 0, L, R, short, last => by
    obtain rfl : R = [] := List.eq_nil_of_length_eq_zero (by omega)
    exact ⟨[], [], rfl, by simp, by simpa using last, by simp, by simp [handlePriorityChange.forward]⟩
  | fuel + 1, L, R, short, last => by
    unfold handlePriorityChange.forward
    rcases R with _ | ⟨r, R⟩
    · exact ⟨[], [], rfl, by simp, by simpa using last, by simp, by simp⟩
    have after : ((L ++ x :: r :: R).toArray[L.length + 1]?.map (·.priority)).getD prio = r.priority := by
      simp
    rw [after]
    by_cases lower : r.priority < prio
    · -- `r` moves before the process, which goes on forward from after it
      obtain ⟨M, R', split, below, last', atLeast, moved⟩ :=
        forwardMoves hx fuel (L ++ [r]) R (by simp at short; omega) (by simpa using Int.le_of_lt lower)
      refine ⟨r :: M, R', by simp [split], fun a mem => ?_, by simpa using last', atLeast, ?_⟩
      · rcases List.mem_cons.mp mem with rfl | mem
        · exact lower
        · exact below a mem
      have within : L.length + 1 < (L ++ x :: r :: R).toArray.size := by simp
      have regroup : L ++ r :: x :: R = L ++ [r] ++ x :: R := by simp
      simp only [within, lower, decide_true, Bool.and_self, if_true]
      rw [swapNext L R x r, show L.length + 1 = (L ++ [r]).length by simp, regroup, moved]
      simp
    · refine ⟨[], r :: R, rfl, by simp, by simpa using last, by simpa using (Int.not_lt.mp lower), ?_⟩
      simp [lower]

end Moving

theorem sortedPlaced {L R : List Process} {x : Process}
    (sorted : (L ++ R).Pairwise fun p q => p.priority ≤ q.priority)
    (last : ∀ l ∈ L.getLast?, l.priority ≤ x.priority) (head : ∀ r ∈ R.head?, x.priority ≤ r.priority) :
    (L ++ x :: R).Pairwise fun p q => p.priority ≤ q.priority := by
  obtain ⟨sortedL, sortedR, across⟩ := List.pairwise_append.mp sorted
  -- everything in `L` is at most its last element, everything in `R` at least its first
  have belowX : ∀ a ∈ L, a.priority ≤ x.priority := by
    intro a mem
    rcases List.eq_nil_or_concat L with rfl | ⟨L₀, l, rfl⟩
    · simp at mem
    have atLast : l.priority ≤ x.priority := last l (by simp)
    rcases (by simpa using mem : a ∈ L₀ ∨ a = l) with mem | rfl
    · have := (List.pairwise_append.mp (by simpa using sortedL)).2.2 a mem l (by simp)
      omega
    · exact atLast
  have aboveX : ∀ b ∈ R, x.priority ≤ b.priority := by
    intro b mem
    rcases R with _ | ⟨r, R⟩
    · simp at mem
    have atHead : x.priority ≤ r.priority := head r (by simp)
    rcases List.mem_cons.mp mem with rfl | mem
    · exact atHead
    · have := (List.pairwise_cons.mp sortedR).1 b mem
      omega
  refine List.pairwise_append.mpr ⟨sortedL, List.pairwise_cons.mpr ⟨aboveX, sortedR⟩,
    fun a memA b memB => ?_⟩
  rcases List.mem_cons.mp memB with rfl | memB
  · exact belowX a memA
  · exact across a memA b memB

theorem modifyFirstSplit :
    ∀ {l : List Process}, l.find? (fun p => p.id == q) = some p →
      ∃ A B, l = A ++ p :: B ∧ (∀ a ∈ A, a.id ≠ q) ∧ ∀ f, modifyFirst q f l = A ++ f p :: B
  | a :: l, found => by
    by_cases ha : a.id = q
    · have : a = p := by simpa [ha] using found
      subst this
      exact ⟨[], l, rfl, by simp, fun f => by simp [modifyFirst, ha]⟩
    · obtain ⟨A, B, rfl, others, changed⟩ := modifyFirstSplit (l := l) (by simpa [ha] using found)
      refine ⟨a :: A, B, rfl, fun b mem => ?_, fun f => by simp [modifyFirst, ha, changed]⟩
      rcases List.mem_cons.mp mem with rfl | mem
      · exact ha
      · exact others b mem

theorem findIdxSplit {B : List Process} {x : Process} (own : x.id = q) :
    ∀ {A : List Process}, (∀ a ∈ A, a.id ≠ q) →
      (A ++ x :: B).findIdx? (fun p => p.id == q) = some A.length
  | [], _ => by simp [List.findIdx?_cons, own]
  | a :: A, others => by
    have ha : a.id ≠ q := others a (by simp)
    rw [List.cons_append, List.findIdx?_cons, findIdxSplit own fun b mem => others b (by simp [mem])]
    simp [ha]

theorem handlePriorityChangeMoves {A B : List Process} {x : Process}
    (procs : m.procs.toList = A ++ x :: B) (own : x.id = pid) (others : ∀ a ∈ A, a.id ≠ pid) :
    ∃ L M M' R, A = L ++ M ∧ M ++ B = M' ++ R ∧ (∀ a ∈ M, x.priority < a.priority) ∧
      (∀ a ∈ M', a.priority < x.priority) ∧ (∀ l ∈ (L ++ M').getLast?, l.priority ≤ x.priority) ∧
      (∀ r ∈ R.head?, x.priority ≤ r.priority) ∧
      m.handlePriorityChange pid = { m with procs := (L ++ M' ++ x :: R).toArray } := by
  have array : m.procs = (A ++ x :: B).toArray := by rw [← procs]
  have index : m.procIndex? pid = some A.length := by
    simp only [procIndex?, array, List.findIdx?_toArray]
    exact findIdxSplit own others
  have prio : ((m.procs[A.length]?).map (·.priority)).getD 0 = x.priority := by simp [array]
  unfold handlePriorityChange
  rw [index]
  dsimp only
  rw [prio, array]
  obtain ⟨L, M, split, above, last, back⟩ :=
    backMoves x.priority x rfl (A ++ x :: B).toArray.size A B (by simp)
  rw [back]
  dsimp only
  obtain ⟨M', R, shifted, below, last', head, forward⟩ :=
    forwardMoves x.priority x rfl (L ++ x :: (M ++ B)).toArray.size L (M ++ B) (by simp; omega) last
  rw [forward]
  exact ⟨L, M, M', R, split, shifted, above, below, last', head, rfl⟩

theorem Ordered.setPriority (ord : m.Ordered) (pid : Nat) (prio : Int) :
    (m.setPriority pid prio).1.Ordered := by
  unfold Machine.setPriority
  split
  · rename_i p found
    let x : Process := { p with priority := prio }
    have found' : m.procs.toList.find? (fun p => p.id == pid) = some p := by simpa [proc?] using found
    obtain ⟨A, B, split, others, changed⟩ := modifyFirstSplit found'
    have own : x.id = pid := procIdOf (p := p) found
    have procs₁ : (m.setProc x).procs.toList = A ++ x :: B := by
      rw [setProcAt (r := x) found rfl, modifyProcFirst]
      simp [changed (fun _ => x)]
    have next : (m.setProc x).nextPid = m.nextPid := congrArg (·.2.1) (ledgerSetProc m x)
    obtain ⟨L, M, M', R, rfl, shifted, -, -, last, head, moved⟩ :=
      handlePriorityChangeMoves procs₁ own others
    show ((m.setProc x).handlePriorityChange pid).Ordered
    rw [moved]
    -- the others are as they were, and the process went where it belongs
    have sorted := sortedProcs ord
    have distinct : (m.procs.toList.map (·.id)).Nodup := ord.procsDistinct
    have fresh := freshProcs ord
    rw [split] at sorted distinct fresh
    have rest : L ++ M' ++ R = L ++ M ++ B := by simp [shifted]
    have perm : (L ++ M' ++ x :: R).Perm (L ++ M ++ x :: B) := by
      have middle := @List.perm_middle _ x (L ++ M') R
      rw [rest] at middle
      exact middle.trans List.perm_middle.symm
    have ids : (L ++ M ++ x :: B).map (·.id) = (L ++ M ++ p :: B).map (·.id) := by simp [x]
    refine orderedOfProcs ?_ ?_ ?_
    · refine sortedPlaced (x := x) ?_ last head
      rw [rest]
      exact sorted.sublist (List.Sublist.append_left (List.sublist_cons_self p B) _)
    · unfold Distinct
      exact (perm.map _).nodup_iff.mpr (ids ▸ distinct)
    · intro q mem
      show q.id < (m.setProc x).nextPid
      rw [next]
      rcases List.mem_append.mp (perm.subset (by simpa using mem)) with old | mem
      · exact fresh q (List.mem_append_left _ old)
      rcases List.mem_cons.mp mem with rfl | old
      · exact fresh p (by simp)
      · exact fresh q (by simp [old])
  · exact ord

theorem Ordered.removeTerminated (ord : m.Ordered) : m.removeTerminated.1.Ordered := by
  obtain ⟨procs, next, -⟩ := removeTerminatedKeeps m
  have kept : (m.procs.filter fun p => !p.status.isTerminal).toList.Sublist m.procs.toList := by
    rw [Array.toList_filter]
    exact List.filter_sublist
  refine orderedOfProcs ?_ ?_ ?_
  · rw [procs]
    exact (sortedProcs ord).sublist kept
  · unfold Distinct
    rw [procs]
    exact (kept.map _).nodup ord.procsDistinct
  · intro q mem
    rw [procs] at mem
    rw [next]
    exact freshProcs ord q (kept.subset mem)

/-! Every operation. -/

/-- The operations that add, move or remove processes. -/
def ListOp.reshapes : ListOp → Bool
  | .create _ | .setPriority _ _ | .removeTerminated => true
  | _ => false

/-- The operations that change a priority. -/
def ListOp.reorders : ListOp → Bool
  | .setPriority _ _ => true
  | _ => false

theorem samePerform (distinct : m.Distinct) :
    ∀ op : ListOp, op.reshapes = false → SameLineup m (m.perform op)
  | .allocateGroup, _ => .ofProcs rfl rfl
  | .resume pid g, _ => by
    show SameLineup m (m.resume pid g).1
    unfold Machine.resume
    split
    · rename_i p found
      split
      · exact sameSetFound found rfl
      · exact .refl m
    · exact .refl m
  | .resumeSuspended g, _ => sameMapProcs _ fun p => by split <;> rfl
  | .join pid g, _ => by
    show SameLineup m (m.join pid g).1
    unfold Machine.join
    split
    · exact .refl m
    · split
      · exact .refl m
      · exact sameMapProcs _ fun q => by split <;> rfl
  | .startGroup g, _ => sameStartGroup distinct g
  | .run, _ => sameRunList distinct
  | .continueProcess pid, _ => by
    show SameLineup m (m.continueProcess pid).1
    unfold Machine.continueProcess
    split
    · rename_i p found
      split
      · exact sameSetFound found rfl
      · exact .refl m
    · exact .refl m
  | .continueWithFailure pid message, _ => by
    show SameLineup m (m.continueWithFailure pid message).1
    unfold Machine.continueWithFailure
    split
    · rename_i p found
      split
      · exact sameSetFound found rfl
      · exact .refl m
    · exact .refl m
  | .terminate pid, _ => by
    show SameLineup m (m.terminate pid).1
    unfold Machine.terminate
    split
    · exact .refl m
    · -- the process ends in its place; then its group may move on
      have ended : SameLineup m (m.finish pid .terminated).settle :=
        (SameLineup.ofAside (asideFinish .terminated)).trans (.settle _)
      dsimp only
      split
      · exact ended.trans (sameStartGroup (ended.distinct distinct) _)
      · exact ended

theorem Ordered.perform (ord : m.Ordered) : ∀ op : ListOp, (m.perform op).Ordered
  | .create name => ord.create name
  | .setPriority pid priority => ord.setPriority pid priority
  | .removeTerminated => ord.removeTerminated
  | .allocateGroup | .resume _ _ | .resumeSuspended _ | .join _ _ | .startGroup _ | .run
  | .continueProcess _ | .continueWithFailure _ _ | .terminate _ =>
    (samePerform ord.procsDistinct _ rfl).ordered ord

/-- The process a `create` makes. -/
def ListOp.created (m : Machine) : ListOp → List Process
  | .create name => [(m.create name).2]
  | _ => []

theorem nextPidPerform (ord : m.Ordered) : ∀ op : ListOp,
    (m.perform op).nextPid = m.nextPid + (op.created m).length
  | .create _ => rfl
  | .setPriority pid priority => by
    show (m.setPriority pid priority).1.nextPid = m.nextPid
    unfold Machine.setPriority
    split
    · obtain ⟨ps, -, moved⟩ := handlePriorityChangePerm (m.setProc _) pid
      rw [moved]
      exact congrArg (·.2.1) (ledgerSetProc m _)
    · rfl
  | .removeTerminated => (removeTerminatedKeeps m).2.1
  | .allocateGroup | .resume _ _ | .resumeSuspended _ | .join _ _ | .startGroup _ | .run
  | .continueProcess _ | .continueWithFailure _ _ | .terminate _ =>
    (samePerform ord.procsDistinct _ rfl).nextPid

theorem createdNext : ∀ op : ListOp, ∀ p ∈ op.created m, p.id = m.nextPid
  | .create _, _, mem => by rw [List.mem_singleton.mp mem]; rfl
  | .allocateGroup, _, mem | .resume _ _, _, mem | .resumeSuspended _, _, mem | .join _ _, _, mem
  | .startGroup _, _, mem | .run, _, mem | .continueProcess _, _, mem
  | .continueWithFailure _ _, _, mem | .terminate _, _, mem | .setPriority _ _, _, mem
  | .removeTerminated, _, mem => absurd mem List.not_mem_nil

theorem createdIncreasing : ∀ op : ListOp, ((op.created m).map (·.id)).Pairwise (· < ·)
  | .create _ => List.pairwise_singleton _ _
  | .allocateGroup | .resume _ _ | .resumeSuspended _ | .join _ _ | .startGroup _ | .run
  | .continueProcess _ | .continueWithFailure _ _ | .terminate _ | .setPriority _ _
  | .removeTerminated => List.Pairwise.nil

theorem createdBelow (ord : m.Ordered) (op : ListOp) :
    ∀ p ∈ op.created m, m.nextPid ≤ p.id ∧ p.id < (m.perform op).nextPid := by
  intro p mem
  have := createdNext op p mem
  have := nextPidPerform ord op
  have : 0 < (op.created m).length := List.length_pos_of_mem mem
  omega

/-! Relative order. -/

/-- The processes that are in both lists stand in the same order in each. -/
def KeepsOrder (m m' : Machine) : Prop := m'.ids.filter (· ∈ m.ids) = m.ids.filter (· ∈ m'.ids)

theorem filterMemSublist {l l' : List Nat} (sub : l'.Sublist l) (nodup : l.Nodup) :
    l.filter (· ∈ l') = l' := by
  induction sub with
  | slnil => rfl
  | cons a sub ih =>
    have absent : a ∉ _ := fun mem => (List.nodup_cons.mp nodup).1 (sub.subset mem)
    simp [absent, ih (List.nodup_cons.mp nodup).2]
  | cons_cons a sub ih =>
    obtain ⟨absent, rest⟩ := List.nodup_cons.mp nodup
    have others : ∀ b ∈ _, b ≠ a := fun b mem same => absent (same ▸ mem)
    rw [List.filter_cons_of_pos (by simp), ← ih rest]
    congr 1
    exact List.filter_congr fun b mem => by simp [others b mem, mem]

theorem filterMemSelf (l l' : List Nat) (inside : ∀ a ∈ l, a ∈ l') : l.filter (· ∈ l') = l :=
  List.filter_eq_self.mpr fun a mem => by simpa using inside a mem

theorem keepsOrderGrow (sub : m.ids.Sublist m'.ids) (nodup : m'.ids.Nodup) : KeepsOrder m m' := by
  unfold KeepsOrder
  rw [filterMemSublist sub nodup, filterMemSelf _ _ fun a mem => sub.subset mem]

theorem keepsOrderShrink (sub : m'.ids.Sublist m.ids) (nodup : m.ids.Nodup) : KeepsOrder m m' := by
  unfold KeepsOrder
  rw [filterMemSublist sub nodup, filterMemSelf _ _ fun a mem => sub.subset mem]

theorem SameLineup.keepsOrder (same : SameLineup m m') (nodup : m.ids.Nodup) : KeepsOrder m m' :=
  keepsOrderShrink (by rw [same.ids]) nodup

theorem keepsOrderPerform (ord : m.Ordered) :
    ∀ op : ListOp, op.reorders = false → KeepsOrder m (m.perform op)
  | .create name, _ => by
    obtain ⟨low, high, split, made, -, -⟩ := createPlaces ord name
    refine keepsOrderGrow ?_ (ord.create name).distinct
    simp only [idsEq, perform, split, made]
    exact (List.Sublist.append_left (List.sublist_cons_self _ high) low).map _
  | .removeTerminated, _ => by
    refine keepsOrderShrink ?_ ord.distinct
    simp only [idsEq, perform, (removeTerminatedKeeps m).1, Array.toList_filter]
    exact List.filter_sublist.map _
  | .allocateGroup, _ | .resume _ _, _ | .resumeSuspended _, _ | .join _ _, _ | .startGroup _, _
  | .run, _ | .continueProcess _, _ | .continueWithFailure _ _, _ | .terminate _, _ =>
    (samePerform ord.procsDistinct _ rfl).keepsOrder ord.distinct

/-! Along any sequence of operations. -/

/-- The processes the creates of a sequence of operations make, in order. -/
def createdProcs (m : Machine) : List ListOp → List Process
  | [] => []
  | op :: ops => op.created m ++ createdProcs (m.perform op) ops

/-- What the list guarantees before its next operation: it is ordered, a create would put the
new process after every process of the same or lower priority and before every higher one,
and any operation but a priority change keeps the processes that remain in their order. -/
structure Steady (m : Machine) : Prop where
  ordered : m.Ordered
  placed : ∀ name, ∃ low high, m.procs.toList = low ++ high ∧
    (m.create name).1.procs.toList = low ++ m.newProcess name :: high ∧
    (∀ q ∈ low, q.priority ≤ m.config.defaultPriority) ∧ ∀ q ∈ high, m.config.defaultPriority < q.priority
  kept : ∀ op : ListOp, op.reorders = false → KeepsOrder m (m.perform op)

/-- What a sequence of operations from `m` guarantees: the list it leaves is steady; its creates
make processes of increasing identity, each above every identity the list held before; and
while no identity has reached `2 ^ 32`, every process is known by its identity, so the ids
the creates give increase as well. -/
structure OrderedHistory (m : Machine) (ops : List ListOp) : Prop where
  steady : (m.performAll ops).Steady
  increasing : ((m.createdProcs ops).map (·.id)).Pairwise (· < ·)
  above : ∀ p ∈ m.createdProcs ops, ∀ a ∈ m.lineup, a.1 < p.id
  known : (m.performAll ops).nextPid ≤ 4294967296 →
    (∀ p ∈ m.createdProcs ops, p.processId = p.id) ∧
      ∀ q ∈ (m.performAll ops).procs.toList, q.processId = q.id

theorem Ordered.steady (ord : m.Ordered) : m.Steady := ⟨ord, createPlaces ord, keepsOrderPerform ord⟩

theorem Ordered.performAll (ord : m.Ordered) (ops : List ListOp) : (m.performAll ops).Ordered := by
  induction ops generalizing m with
  | nil => exact ord
  | cons op ops ih => exact ih (ord.perform op)

theorem createdRange (ord : m.Ordered) (ops : List ListOp) :
    ((m.createdProcs ops).map (·.id)).Pairwise (· < ·) ∧
      (∀ p ∈ m.createdProcs ops, m.nextPid ≤ p.id ∧ p.id < (m.performAll ops).nextPid) ∧
      (m.performAll ops).nextPid = m.nextPid + (m.createdProcs ops).length := by
  induction ops generalizing m with
  | nil => simp [createdProcs, performAll]
  | cons op ops ih =>
    obtain ⟨increasing, bounds, next⟩ := ih (ord.perform op)
    have step := nextPidPerform ord op
    have head := createdBelow ord op
    have final : (m.performAll (op :: ops)).nextPid = ((m.perform op).performAll ops).nextPid := rfl
    refine ⟨?_, fun p mem => ?_, ?_⟩
    · -- this operation's identities all lie below the rest's
      rw [createdProcs, List.map_append]
      refine List.pairwise_append.mpr ⟨createdIncreasing op, increasing, fun a memA b memB => ?_⟩
      obtain ⟨p, memP, rfl⟩ := List.mem_map.mp memA
      obtain ⟨q, memQ, rfl⟩ := List.mem_map.mp memB
      have := (head p memP).2
      have := (bounds q memQ).1
      omega
    · rcases List.mem_append.mp mem with mem | mem
      · have := head p mem
        omega
      · have := bounds p mem
        omega
    · simp only [createdProcs, List.length_append, final, next, step]
      omega

theorem processIdOfBelow {n : Nat} (below : n < 4294967296) : processIdOf n = n :=
  Nat.mod_eq_of_lt below

/-- The process list keeps its priority order along every sequence of operations: it stays
sorted by priority with distinct identities, every create makes a process of identity above
all before it and puts it after every process of the same or lower priority and before every
higher one, and no operation but a priority change moves the processes that remain. While
no identity has reached `2 ^ 32`, the ids the creates give are these identities. -/
theorem priorityOrderKept (start : m.Ordered) (ops : List ListOp) : m.OrderedHistory ops := by
  obtain ⟨increasing, bounds, -⟩ := createdRange start ops
  have final := start.performAll ops
  refine ⟨final.steady, increasing, fun p mem a old => ?_, fun unwrapped => ⟨fun p mem => ?_, fun q mem => ?_⟩⟩
  · have := start.fresh a old
    have := (bounds p mem).1
    omega
  · exact processIdOfBelow (by have := (bounds p mem).2; omega)
  · exact processIdOfBelow (by have := freshProcs final q mem; omega)

theorem freshListOrdered : ({} : Machine).Ordered :=
  ⟨by simp [lineup], by simp [Machine.ids, lineup], by simp [lineup]⟩

/-- The history of the scheduler's own test: a process raised to priority 60 goes behind the
two created after it. -/
theorem raisedGoesBehind :
    ({} : Machine).Ordered ∧
      ({} : Machine).OrderedHistory [.create "a", .setPriority 1 60, .create "b", .create "c"] :=
  ⟨freshListOrdered, priorityOrderKept freshListOrdered _⟩

example : (({} : Machine).performAll [.create "a", .setPriority 1 60, .create "b", .create "c"]).ids =
    [2, 3, 1] := by decide +kernel

theorem createdRepeat (name : String) :
    ∀ (n : Nat) (m : Machine), (m.createdProcs (List.replicate n (.create name))).map (·.id) =
      List.range' m.nextPid n
  | 0, _ => rfl
  | n + 1, m => by
    rw [List.replicate_succ, createdProcs, List.map_append, createdRepeat name n, List.range'_succ]
    rfl

/-- Ids are counted in 32 bits: of `2 ^ 32` processes created one after another in a fresh
list, the first is known by 1 and the last by 0, so the ids the creates give stop increasing. -/
theorem createdIdsWrap :
    ¬ ((({} : Machine).createdProcs (List.replicate 4294967296 (.create "p"))).map
      (·.processId)).Pairwise (· < ·) := by
  intro increasing
  have ids : (({} : Machine).createdProcs (List.replicate 4294967296 (.create "p"))).map (·.processId) =
      (List.range' 1 4294967295 ++ [4294967296]).map processIdOf := by
    rw [← List.range'_concat, ← createdRepeat "p" (4294967295 + 1) {}, List.map_map]
    rfl
  rw [ids, List.map_append, List.pairwise_append] at increasing
  have first : processIdOf 1 ∈ (List.range' 1 4294967295).map processIdOf :=
    List.mem_map_of_mem (List.mem_range'_1.mpr ⟨Nat.le_refl 1, by omega⟩)
  have wrapped := increasing.2.2 _ first _ (List.mem_map_of_mem (List.mem_singleton_self 4294967296))
  simp [processIdOf] at wrapped

theorem placeAfterOwnPriority (m : Machine) (pid : Nat) (prio : Int) :
    (m.modifyProc pid fun p => { p with priority := prio }).handlePriorityChange pid =
      (m.setPriority pid prio).1 := by
  unfold Machine.setPriority
  split
  · rename_i p found
    have found' : m.procs.toList.find? (fun p => p.id == pid) = some p := by simpa [proc?] using found
    obtain ⟨A, B, -, -, changed⟩ := modifyFirstSplit found'
    -- both change the first process of the id, the same way
    rw [setProcAt (r := { p with priority := prio }) found rfl, modifyProcFirst, modifyProcFirst,
      changed, changed]
  · rename_i missing
    have absent : m.procIndex? pid = none := by
      simp only [procIndex?, Array.findIdx?_eq_none_iff]
      intro x mem
      simpa using Array.find?_eq_none.mp missing x mem
    have unchanged : m.modifyProc pid (fun p => { p with priority := prio }) = m := by
      unfold modifyProc
      rw [absent]
    rw [unchanged]
    unfold handlePriorityChange
    rw [absent]

end Machine

end ScriptEngine
