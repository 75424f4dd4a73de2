import ScriptEngine.Proofs.PriorityOrder
/-!
A priority change as a re-insertion. When the list is in priority order but for one process,
whose priority has just changed, handling the change takes that process out and puts it back
where the whole list is in order, with the others in their order and the process on the same
side as before of every process of its own priority. There is one such place, so this says
exactly what the list becomes; setting a priority through the list does the same with the
process's new priority.
-/
namespace ScriptEngine

namespace Machine

variable {m : Machine} {pid : Nat} {A B L R M P P' : List Process} {x : Process}

/-- `P` is the processes `A ++ B` with `x` put back among them: the others in their order, the
whole list in priority order, and before `x` the same processes of its priority as in `A`. -/
def Reinserts (A B : List Process) (x : Process) (P : List Process) : Prop :=
  ∃ L R, P = L ++ x :: R ∧ L ++ R = A ++ B ∧ P.Pairwise (fun p q => p.priority ≤ q.priority) ∧
    L.filter (·.priority == x.priority) = A.filter (·.priority == x.priority)

theorem placedRunEmpty
    (first : (L ++ x :: (M ++ R)).Pairwise fun p q => p.priority ≤ q.priority)
    (second : (L ++ M ++ x :: R).Pairwise fun p q => p.priority ≤ q.priority)
    (side : (L ++ M).filter (·.priority == x.priority) = L.filter (·.priority == x.priority)) :
    M = [] := by
  have level : ∀ a ∈ M, a.priority = x.priority := by
    intro a mem
    have above : x.priority ≤ a.priority :=
      (List.pairwise_cons.mp (List.pairwise_append.mp first).2.1).1 a (List.mem_append_left _ mem)
    have below : a.priority ≤ x.priority :=
      (List.pairwise_append.mp second).2.2 a (List.mem_append_right _ mem) x List.mem_cons_self
    omega
  rw [List.filter_append, List.append_right_eq_self] at side
  rwa [List.filter_eq_self.mpr fun a mem => by simp [level a mem]] at side

theorem Reinserts.unique (h : Reinserts A B x P) (h' : Reinserts A B x P') : P = P' := by
  obtain ⟨L, R, rfl, rest, sorted, side⟩ := h
  obtain ⟨L', R', rfl, rest', sorted', side'⟩ := h'
  -- one placing stands a run `M` further on than the other
  rcases List.append_eq_append_iff.mp (rest.trans rest'.symm) with ⟨M, rfl, rfl⟩ | ⟨M, rfl, rfl⟩
  · obtain rfl : M = [] := placedRunEmpty sorted sorted' (side'.trans side.symm)
    simp
  · obtain rfl : M = [] := placedRunEmpty sorted' sorted (side.trans side'.symm)
    simp

theorem findSplit (procs : m.procs.toList = A ++ x :: B) (own : x.id = pid)
    (others : ∀ a ∈ A, a.id ≠ pid) : m.proc? pid = some x := by
  rw [proc?, ← Array.find?_toList, procs, List.find?_append, List.find?_eq_none.mpr, Option.none_or]
  · simp [own]
  · intro a mem
    simpa using others a mem

theorem modifyFirstAt {f : Process → Process} (own : x.id = pid) :
    ∀ {A : List Process}, (∀ a ∈ A, a.id ≠ pid) → modifyFirst pid f (A ++ x :: B) = A ++ f x :: B
  | [], _ => by simp [modifyFirst, own]
  | a :: A, others => by
    have ha : a.id ≠ pid := others a List.mem_cons_self
    simp [modifyFirst, ha, modifyFirstAt own fun b mem => others b (List.mem_cons_of_mem a mem)]

theorem setProcSplit {r : Process} (procs : m.procs.toList = A ++ x :: B) (own : x.id = pid)
    (others : ∀ a ∈ A, a.id ≠ pid) (same : r.id = pid) :
    (m.setProc r).procs.toList = A ++ r :: B := by
  rw [setProc, same, modifyProcFirst]
  simp [procs, modifyFirstAt own others]

theorem handlePriorityChangeReinserts (procs : m.procs.toList = A ++ x :: B) (own : x.id = pid)
    (others : ∀ a ∈ A, a.id ≠ pid) (sorted : (A ++ B).Pairwise fun p q => p.priority ≤ q.priority) :
    Reinserts A B x (m.handlePriorityChange pid).procs.toList := by
  obtain ⟨L, M, M', R, rfl, shifted, above, below, last, head, moved⟩ :=
    handlePriorityChangeMoves procs own others
  have rest : L ++ M' ++ R = L ++ M ++ B := by simp [shifted]
  refine ⟨L ++ M', R, by simp [moved], rest, ?_, ?_⟩
  · rw [moved]
    exact sortedPlaced (by rw [rest]; exact sorted) last head
  · -- the runs passed on either side are above or below `x`'s priority
    have passedBelow : M'.filter (·.priority == x.priority) = [] :=
      List.filter_eq_nil_iff.mpr fun a mem => by simpa using Int.ne_of_lt (below a mem)
    have passedAbove : M.filter (·.priority == x.priority) = [] :=
      List.filter_eq_nil_iff.mpr fun a mem => by simpa using Int.ne_of_gt (above a mem)
    simp only [List.filter_append, passedBelow, passedAbove]

/-- Handling a priority change gives exactly the re-insertion of the process, and setting a
priority through the list gives exactly the re-insertion of the process with its new one. -/
theorem priorityChangeReinserts (procs : m.procs.toList = A ++ x :: B) (own : x.id = pid)
    (others : ∀ a ∈ A, a.id ≠ pid) (sorted : (A ++ B).Pairwise fun p q => p.priority ≤ q.priority)
    (prio : Int) :
    (∀ P, (m.handlePriorityChange pid).procs.toList = P ↔ Reinserts A B x P) ∧
      ∀ P, (m.setPriority pid prio).1.procs.toList = P ↔
        Reinserts A B { x with priority := prio } P := by
  have handled (m : Machine) (x : Process) (procs : m.procs.toList = A ++ x :: B) (own : x.id = pid) :
      ∀ P, (m.handlePriorityChange pid).procs.toList = P ↔ Reinserts A B x P := by
    intro P
    have placed := handlePriorityChangeReinserts procs own others sorted
    exact ⟨fun h => h ▸ placed, placed.unique⟩
  refine ⟨handled m x procs own, ?_⟩
  -- setting the priority changes `x` in its place, and then the change is handled
  have set : (m.setPriority pid prio).1 =
      (m.setProc { x with priority := prio }).handlePriorityChange pid := by
    simp only [Machine.setPriority, findSplit procs own others]
  rw [set]
  exact handled _ _ (setProcSplit procs own others own) own

/-- The scheduler's own case of equal priorities: of processes at 10, 20, 20 and 30, the last
one set to 20 stays behind the two already there. -/
theorem equalPriorityStaysBehind :
    let ps : List Process := [{ id := 1, name := "p0", priority := 10 },
      { id := 2, name := "p1", priority := 20 }, { id := 3, name := "p2", priority := 20 }]
    let x : Process := { id := 4, name := "p3", priority := 30 }
    let m : Machine := { procs := (ps ++ [x]).toArray }
    m.procs.toList = ps ++ x :: [] ∧ x.id = 4 ∧ (∀ a ∈ ps, a.id ≠ 4) ∧
      (ps ++ []).Pairwise (fun p q : Process => p.priority ≤ q.priority) ∧
      (∀ P, (m.handlePriorityChange 4).procs.toList = P ↔ Reinserts ps [] x P) ∧
      ∀ P, (m.setPriority 4 20).1.procs.toList = P ↔ Reinserts ps [] { x with priority := 20 } P := by
  intro ps x m
  exact ⟨rfl, rfl, by decide, by decide,
    priorityChangeReinserts (A := ps) (B := []) (x := x) rfl rfl (by decide) (by decide) 20⟩

example :
    let m : Machine := { procs := #[{ id := 1, name := "p0", priority := 10 },
      { id := 2, name := "p1", priority := 20 }, { id := 3, name := "p2", priority := 20 },
      { id := 4, name := "p3", priority := 30 }] }
    ((m.setPriority 4 15).1.procs.toList.map (·.id), (m.setPriority 1 25).1.procs.toList.map (·.id)) =
      ([1, 4, 2, 3], [2, 3, 1, 4]) := by
  decide +kernel

end Machine

end ScriptEngine
