import ScriptEngine.Proofs.CodeTables
/-!
Appending one code unit to another. When the append succeeds, the first unit is kept as it
was and the second follows it renumbered: each table operand names an entry of the joined
tables equal to the one it named, labels and jumps by label move past the first unit's
labels, jumps by index past its code (jump targets are 32-bit and wrap), and the second
unit's line map answers for its instructions in their new places below `2 ^ 32`; relocating
the joined unit resolves the second unit's jumps to where relocating it alone would, moved
past the first unit. When the append fails,
the instructions, labels and line map are untouched, but the tables merged before the one
that filled up keep the entries they took in: a failed append is not undone.
-/
namespace ScriptEngine

namespace Value

theorem sameLiteralSelf (v : Value) : v.sameLiteral v = true := by
  cases v <;> simp [sameLiteral]

end Value

namespace Instr

/-- Instructions whose operand an append renumbers: table operands, labels and jumps. -/
def renumbered : Instr → Bool
  | .pushLiteral _ | .pushName _ | .storeName _ | .pushLocal _ | .storeLocal _ | .popLocal _ | .label _
  | .jump _ => true
  | _ => false

def fitsTables (c : Code) : Instr → Bool
  | .pushLiteral i => i < c.literals.size
  | .pushName i | .storeName i => i < c.names.size
  | .pushLocal i | .storeLocal i | .popLocal i => i < c.locals.size
  | _ => true

def labelBelow (n : Nat) : Instr → Bool
  | .label id => id < n
  | _ => true

end Instr

namespace Code

variable {a b c c' : Code} {i : Nat} {e : TableFull}

/-! ### One entry into a table

Each addition touches its own table only, leaves it as it was or pushes the new entry, and
answers an index holding an entry equal to the one asked for. -/

theorem addLiteralKeeps (v : Value) :
    (c.addLiteral v).1 = { c with literals := (c.addLiteral v).1.literals } := by
  rcases addLiteralCases c v with ⟨j, -, same⟩ | ⟨-, -, same⟩ | ⟨-, -, same⟩ <;> rw [same]

theorem addLiteralGrows (v : Value) :
    (c.addLiteral v).1.literals.toList = c.literals.toList ∨ (c.addLiteral v).1.literals.toList = c.literals.toList ++ [v] := by
  rcases addLiteralCases c v with ⟨j, -, same⟩ | ⟨-, -, same⟩ | ⟨-, -, same⟩ <;> rw [same]
  · exact .inl rfl
  · exact .inl rfl
  · exact .inr Array.toList_push

theorem addLiteralFound {v : Value} (added : c.addLiteral v = (c', .ok i)) :
    ∃ w, c'.literals[i]? = some w ∧ w.sameLiteral v = true := by
  rcases addLiteralCases c v with ⟨j, found, same⟩ | ⟨-, -, same⟩ | ⟨-, -, same⟩ <;>
    rw [same] at added <;> cases added
  · obtain ⟨lt, same, -⟩ := Array.findIdx?_eq_some_iff_getElem.mp found
    exact ⟨_, Array.getElem?_eq_getElem lt, same⟩
  · exact ⟨v, by simp, Value.sameLiteralSelf v⟩

theorem addLiteralError {v : Value} (failed : c.addLiteral v = (c', .error e)) : e = .literals := by
  rcases addLiteralCases c v with ⟨j, -, same⟩ | ⟨-, -, same⟩ | ⟨-, -, same⟩ <;>
    rw [same] at failed <;> cases failed
  rfl

theorem addNameKeeps (n : String) :
    (c.addName n).1 = { c with names := (c.addName n).1.names, nameIndex := (c.addName n).1.nameIndex } := by
  rcases addNameCases c n with ⟨j, -, same⟩ | ⟨-, -, same⟩ | ⟨-, -, same⟩ <;> rw [same]

theorem addNameGrows (n : String) :
    (c.addName n).1.names.toList = c.names.toList ∨ (c.addName n).1.names.toList = c.names.toList ++ [n] := by
  rcases addNameCases c n with ⟨j, -, same⟩ | ⟨-, -, same⟩ | ⟨-, -, same⟩ <;> rw [same]
  · exact .inl rfl
  · exact .inl rfl
  · exact .inr Array.toList_push

theorem addNameFound (ok : c.TablesOk) {n : String} (added : c.addName n = (c', .ok i)) :
    c'.names[i]? = some n := by
  rcases addNameCases c n with ⟨j, found, same⟩ | ⟨-, -, same⟩ | ⟨-, -, same⟩ <;>
    rw [same] at added <;> cases added
  · exact (ok.nameIndex n _).mp found
  · simp

theorem addNameError {n : String} (failed : c.addName n = (c', .error e)) : e = .names := by
  rcases addNameCases c n with ⟨j, -, same⟩ | ⟨-, -, same⟩ | ⟨-, -, same⟩ <;>
    rw [same] at failed <;> cases failed
  rfl

theorem addLocalKeeps (n : String) :
    (c.addLocal n).1 = { c with locals := (c.addLocal n).1.locals } := by
  rcases addLocalCases c n with ⟨j, -, same⟩ | ⟨-, -, same⟩ | ⟨-, -, same⟩ <;> rw [same]

theorem addLocalGrows (n : String) :
    (c.addLocal n).1.locals.toList = c.locals.toList ∨ (c.addLocal n).1.locals.toList = c.locals.toList ++ [n] := by
  rcases addLocalCases c n with ⟨j, -, same⟩ | ⟨-, -, same⟩ | ⟨-, -, same⟩ <;> rw [same]
  · exact .inl rfl
  · exact .inl rfl
  · exact .inr Array.toList_push

theorem addLocalFound {n : String} (added : c.addLocal n = (c', .ok i)) : c'.locals[i]? = some n := by
  rcases addLocalCases c n with ⟨j, found, same⟩ | ⟨-, -, same⟩ | ⟨-, -, same⟩ <;>
    rw [same] at added <;> cases added
  · obtain ⟨lt, same, -⟩ := Array.findIdx?_eq_some_iff_getElem.mp found
    simpa [Array.getElem?_eq_getElem lt] using same
  · simp

theorem addLocalError {n : String} (failed : c.addLocal n = (c', .error e)) : e = .locals := by
  rcases addLocalCases c n with ⟨j, -, same⟩ | ⟨-, -, same⟩ | ⟨-, -, same⟩ <;>
    rw [same] at failed <;> cases failed
  rfl

/-! ### Merging a whole table -/

section Merge

variable {α : Type} (add : Code → α → Code × Except TableFull Nat)

theorem addAllFst (x : α) (xs : List α) (c : Code) :
    (addAll add c (x :: xs)).1 = match add c x with
      | (c', .error _) => c'
      | (c', .ok _) => (addAll add c' xs).1 := by
  simp only [addAll]
  rcases add c x with ⟨c', _ | i⟩
  · rfl
  · dsimp only
    split <;> simp_all

theorem addAllError {t : TableFull} (only : ∀ c x c' e, add c x = (c', .error e) → e = t) :
    ∀ (xs : List α) (c : Code), (addAll add c xs).2 = .error e → e = t
  | [], _, failed => by simp [addAll] at failed
  | x :: xs, c, failed => by
    simp only [addAll] at failed
    rcases found : add c x with ⟨c₁, e₁ | i⟩ <;> rw [found] at failed <;> dsimp only at failed
    · cases failed
      exact only c x c₁ e found
    · rcases rest : addAll add c₁ xs with ⟨c₂, e₂ | is⟩ <;> rw [rest] at failed <;> dsimp only at failed
      · cases failed
        exact addAllError only xs c₁ (by rw [rest])
      · cases failed

theorem addAllTakes {β : Type} (table : Code → List β) (entry : α → β)
    (grow : ∀ c x, table (add c x).1 = table c ∨ table (add c x).1 = table c ++ [entry x]) :
    ∀ (xs : List α) (c : Code), ∃ extra, List.Sublist extra (xs.map entry) ∧ table (addAll add c xs).1 = table c ++ extra
  | [], c => ⟨[], .slnil, by simp [addAll]⟩
  | x :: xs, c => by
    have first := grow c x
    rw [addAllFst]
    rcases found : add c x with ⟨c₁, _ | i⟩ <;> rw [found] at first <;> dsimp only
    · rcases first with same | more
      · exact ⟨[], List.nil_sublist _, by rw [same, List.append_nil]⟩
      · exact ⟨[entry x], by simp, more⟩
    · obtain ⟨extra, sub, grown⟩ := addAllTakes table entry grow xs c₁
      rcases first with same | more
      · exact ⟨extra, sub.cons _, by rw [grown, same]⟩
      · exact ⟨entry x :: extra, sub.cons_cons _, by rw [grown, more, List.append_assoc, List.singleton_append]⟩

theorem renumberHead (j : Nat) (is : Array Nat) : renumber (#[j] ++ is) 0 = j := by
  rw [renumber, Array.getElem?_append_left Nat.zero_lt_one]
  rfl

theorem renumberTail (j : Nat) {is : Array Nat} {k : Nat} (inside : k < is.size) :
    renumber (#[j] ++ is) (k + 1) = renumber is k := by
  simp [renumber, Array.getElem?_append, Array.getElem?_eq_getElem inside]

theorem addAllAnswers {β : Type} (table : Code → List β) (entry : α → β) (R : β → α → Prop)
    (Ok : Code → Prop) (keep : ∀ c x, Ok c → Ok (add c x).1)
    (grow : ∀ c x, table (add c x).1 = table c ∨ table (add c x).1 = table c ++ [entry x])
    (found : ∀ {c x c' i}, Ok c → add c x = (c', .ok i) → ∃ y, (table c')[i]? = some y ∧ R y x) :
    ∀ (xs : List α) (c c' : Code) (is : Array Nat), Ok c → addAll add c xs = (c', .ok is) →
      is.size = xs.length ∧ ∀ k x, xs[k]? = some x → ∃ y, (table c')[renumber is k]? = some y ∧ R y x
  | [], _, _, _, _, merged => by
    simp only [addAll, Prod.mk.injEq, Except.ok.injEq] at merged
    obtain ⟨rfl, rfl⟩ := merged
    exact ⟨rfl, fun k x found => by simp at found⟩
  | x :: xs, c, c', is, ok, merged => by
    have kept := keep c x ok
    simp only [addAll] at merged
    rcases added : add c x with ⟨c₁, _ | j⟩ <;> rw [added] at merged kept <;> dsimp only at merged
    · cases merged
    rcases rest : addAll add c₁ xs with ⟨c₂, _ | is'⟩ <;> rw [rest] at merged <;> dsimp only at merged
    · cases merged
    cases merged
    obtain ⟨size, later⟩ := addAllAnswers table entry R Ok keep grow found xs c₁ _ _ kept rest
    -- the entry answered first is still in place after the rest of the merge
    obtain ⟨y, at_j, related⟩ := found ok added
    obtain ⟨extra, -, grown⟩ := addAllTakes add table entry grow xs c₁
    rw [rest] at grown
    refine ⟨by simp [size, Nat.add_comm], fun k z at_k => ?_⟩
    cases k with
    | zero =>
      obtain rfl : x = z := by simpa using at_k
      refine ⟨y, ?_, related⟩
      rw [renumberHead, grown, List.getElem?_append_left (List.getElem?_eq_some_iff.mp at_j).1, at_j]
    | succ k =>
      have inside : k < is'.size := by
        rw [size]; exact (List.getElem?_eq_some_iff.mp (by simpa using at_k)).1
      rw [renumberTail j inside]
      exact later k z (by simpa using at_k)

end Merge

/-! ### The three merges of an append -/

theorem addAllLiteralsKeeps (xs : List Value) (c : Code) :
    (addAll addLiteral c xs).1 = { c with literals := (addAll addLiteral c xs).1.literals } :=
  addAllKeeps addLiteral (fun c' => c' = { c with literals := c'.literals })
    (fun c' v same => by
      rw [addLiteralKeeps]
      generalize (c'.addLiteral v).1.literals = L
      rw [same]) xs c rfl

theorem addAllNamesKeeps (xs : List String) (c : Code) :
    (addAll addName c xs).1 = { c with
      names := (addAll addName c xs).1.names
      nameIndex := (addAll addName c xs).1.nameIndex } :=
  addAllKeeps addName (fun c' => c' = { c with names := c'.names, nameIndex := c'.nameIndex })
    (fun c' n same => by
      rw [addNameKeeps]
      generalize (c'.addName n).1.names = N
      generalize (c'.addName n).1.nameIndex = I
      rw [same]) xs c rfl

theorem addAllLocalsKeeps (xs : List String) (c : Code) :
    (addAll addLocal c xs).1 = { c with locals := (addAll addLocal c xs).1.locals } :=
  addAllKeeps addLocal (fun c' => c' = { c with locals := c'.locals })
    (fun c' n same => by
      rw [addLocalKeeps]
      generalize (c'.addLocal n).1.locals = L
      rw [same]) xs c rfl

theorem addAllLiteralsTake (xs : List Value) (c : Code) :
    ∃ extra, List.Sublist extra xs ∧ (addAll addLiteral c xs).1.literals.toList = c.literals.toList ++ extra := by
  simpa using addAllTakes addLiteral (fun c => c.literals.toList) id (fun c v => addLiteralGrows v) xs c

theorem addAllNamesTake (xs : List String) (c : Code) :
    ∃ extra, List.Sublist extra xs ∧ (addAll addName c xs).1.names.toList = c.names.toList ++ extra := by
  simpa using addAllTakes addName (fun c => c.names.toList) id (fun c n => addNameGrows n) xs c

theorem addAllLocalsTake (xs : List String) (c : Code) :
    ∃ extra, List.Sublist extra xs ∧ (addAll addLocal c xs).1.locals.toList = c.locals.toList ++ extra := by
  simpa using addAllTakes addLocal (fun c => c.locals.toList) id (fun c n => addLocalGrows n) xs c

theorem appendFails (failed : a.append b = (c, some e)) :
    (e = .labels ∧ c = a) ∨ addAll addLiteral a b.literals.toList = (c, .error e) ∨
    (∃ c₁ lits, addAll addLiteral a b.literals.toList = (c₁, .ok lits) ∧
      addAll addName c₁ b.names.toList = (c, .error e)) ∨
    (∃ c₁ lits c₂ names, addAll addLiteral a b.literals.toList = (c₁, .ok lits) ∧
      addAll addName c₁ b.names.toList = (c₂, .ok names) ∧ addAll addLocal c₂ b.locals.toList = (c, .error e)) := by
  unfold append at failed
  split at failed
  · cases failed
    exact .inl ⟨rfl, rfl⟩
  rcases literals : addAll addLiteral a b.literals.toList with ⟨c₁, e₁ | lits⟩ <;>
    rw [literals] at failed <;> dsimp only at failed
  · cases failed
    exact .inr (.inl rfl)
  rcases names : addAll addName c₁ b.names.toList with ⟨c₂, e₂ | names'⟩ <;>
    rw [names] at failed <;> dsimp only at failed
  · cases failed
    exact .inr (.inr (.inl ⟨c₁, lits, rfl, names⟩))
  rcases locals : addAll addLocal c₂ b.locals.toList with ⟨c₃, e₃ | locals'⟩ <;>
    rw [locals] at failed <;> dsimp only at failed
  · cases failed
    exact .inr (.inr (.inr ⟨c₁, lits, c₂, names', rfl, names, locals⟩))
  · cases failed

theorem appendSucceeds (ok : a.append b = (c, none)) :
    ∃ c₁ lits c₂ names c₃ locals, a.labelCount + b.labelCount ≤ labelLimit ∧
      addAll addLiteral a b.literals.toList = (c₁, .ok lits) ∧
      addAll addName c₁ b.names.toList = (c₂, .ok names) ∧
      addAll addLocal c₂ b.locals.toList = (c₃, .ok locals) ∧
      c = { c₃ with
        instrs := c₃.instrs ++ b.instrs.map (moveInstr lits names locals a.labelCount a.size)
        labelCount := c₃.labelCount + b.labelCount
        lines := appendLines c₃.lines b.lines a.size } := by
  unfold append at ok
  split at ok
  · cases ok
  rename_i fits
  rcases literals : addAll addLiteral a b.literals.toList with ⟨c₁, e₁ | lits⟩ <;>
    rw [literals] at ok <;> dsimp only at ok
  · cases ok
  rcases names : addAll addName c₁ b.names.toList with ⟨c₂, e₂ | names'⟩ <;>
    rw [names] at ok <;> dsimp only at ok
  · cases ok
  rcases locals : addAll addLocal c₂ b.locals.toList with ⟨c₃, e₃ | locals'⟩ <;>
    rw [locals] at ok <;> dsimp only at ok
  · cases ok
  · cases ok
    exact ⟨c₁, lits, c₂, names', c₃, locals', Nat.le_of_not_lt fits, rfl, names, locals, rfl⟩

/-! ### Operands of an appended unit -/

/-- Every table operand of the unit indexes its table. -/
def OperandsInRange (c : Code) : Prop := ∀ op ∈ c.instrs, op.fitsTables c = true

/-- Every label the unit places is one it allocated. -/
def LabelsAllocated (c : Code) : Prop := ∀ op ∈ c.instrs, op.labelBelow c.labelCount = true

instance (c : Code) : Decidable c.OperandsInRange := by
  unfold OperandsInRange; infer_instance

instance (c : Code) : Decidable c.LabelsAllocated := by
  unfold LabelsAllocated; infer_instance

/-- How an instruction of `b` reads once `b` is appended to `a`, giving `c`: a table operand
names an entry of `c` equal to the one it named in `b` (the same literal, name or local), a
label moves past `a`'s labels, a jump by label past `a`'s labels and a jump by index past
`a`'s code, both in 32 bits, and every other instruction stays as it was. -/
inductive Relocated (a b c : Code) : Instr → Instr → Prop
  | pushLiteral {i j : Nat} {v w : Value} : b.literals[i]? = some v → c.literals[j]? = some w →
      w.sameLiteral v = true → Relocated a b c (.pushLiteral i) (.pushLiteral j)
  | pushName {i j : Nat} {n : String} : b.names[i]? = some n → c.names[j]? = some n →
      Relocated a b c (.pushName i) (.pushName j)
  | storeName {i j : Nat} {n : String} : b.names[i]? = some n → c.names[j]? = some n →
      Relocated a b c (.storeName i) (.storeName j)
  | pushLocal {i j : Nat} {n : String} : b.locals[i]? = some n → c.locals[j]? = some n →
      Relocated a b c (.pushLocal i) (.pushLocal j)
  | storeLocal {i j : Nat} {n : String} : b.locals[i]? = some n → c.locals[j]? = some n →
      Relocated a b c (.storeLocal i) (.storeLocal j)
  | popLocal {i j : Nat} {n : String} : b.locals[i]? = some n → c.locals[j]? = some n →
      Relocated a b c (.popLocal i) (.popLocal j)
  | label (id : Nat) : Relocated a b c (.label id) (.label (id + a.labelCount))
  | byLabel (j : Jump) : j.symbolic = true →
      Relocated a b c (.jump j) (.jump { j with target := (j.target + a.labelCount) % 4294967296 })
  | byIndex (j : Jump) : j.symbolic = false →
      Relocated a b c (.jump j) (.jump { j with target := (j.target + a.size) % 4294967296 })
  | other (op : Instr) : op.renumbered = false → Relocated a b c op op

theorem Relocated.ofTables {c' : Code} {op op' : Instr} (moved : Relocated a b c op op')
    (literals : c'.literals = c.literals) (names : c'.names = c.names) (locals : c'.locals = c.locals) :
    Relocated a b c' op op' := by
  cases moved with
  | pushLiteral at_i at_j same => exact .pushLiteral at_i (literals ▸ at_j) same
  | pushName at_i at_j => exact .pushName at_i (names ▸ at_j)
  | storeName at_i at_j => exact .storeName at_i (names ▸ at_j)
  | pushLocal at_i at_j => exact .pushLocal at_i (locals ▸ at_j)
  | storeLocal at_i at_j => exact .storeLocal at_i (locals ▸ at_j)
  | popLocal at_i at_j => exact .popLocal at_i (locals ▸ at_j)
  | label id => exact .label id
  | byLabel j symbolic => exact .byLabel j symbolic
  | byIndex j symbolic => exact .byIndex j symbolic
  | other op plain => exact .other op plain

section Moving

variable {lits names locals : Array Nat}

theorem moveRelocated
    (literalsAnswered : ∀ i v, b.literals[i]? = some v → ∃ w, c.literals[renumber lits i]? = some w ∧ w.sameLiteral v = true)
    (namesAnswered : ∀ i n, b.names[i]? = some n → c.names[renumber names i]? = some n)
    (localsAnswered : ∀ i n, b.locals[i]? = some n → c.locals[renumber locals i]? = some n)
    (fits : a.labelCount + b.labelCount ≤ labelLimit) {op : Instr} (inside : op.fitsTables b = true)
    (allocated : op.labelBelow b.labelCount = true) :
    Relocated a b c op (moveInstr lits names locals a.labelCount a.size op) := by
  have found {α : Type} {t : Array α} {i : Nat} (lt : i < t.size) : t[i]? = some t[i] := Array.getElem?_eq_getElem lt
  cases op with
  | pushLiteral i =>
    obtain ⟨w, at_j, same⟩ := literalsAnswered i _ (found (by simpa [Instr.fitsTables] using inside))
    exact .pushLiteral (found _) at_j same
  | pushName i => exact .pushName (found _) (namesAnswered i _ (found (by simpa [Instr.fitsTables] using inside)))
  | storeName i => exact .storeName (found _) (namesAnswered i _ (found (by simpa [Instr.fitsTables] using inside)))
  | pushLocal i => exact .pushLocal (found _) (localsAnswered i _ (found (by simpa [Instr.fitsTables] using inside)))
  | storeLocal i => exact .storeLocal (found _) (localsAnswered i _ (found (by simpa [Instr.fitsTables] using inside)))
  | popLocal i => exact .popLocal (found _) (localsAnswered i _ (found (by simpa [Instr.fitsTables] using inside)))
  | label id =>
    -- an allocated label moved past `a`'s labels stays below the 16-bit wrap
    have below : id + a.labelCount < 65536 := by
      simp only [Instr.labelBelow, decide_eq_true_eq] at allocated
      simp only [labelLimit] at fits
      omega
    rw [moveInstr, Nat.mod_eq_of_lt below]
    exact .label id
  | jump j =>
    cases symbolic : j.symbolic
    · simpa [moveInstr, symbolic] using Relocated.byIndex (a := a) (b := b) (c := c) j symbolic
    · simpa [moveInstr, symbolic] using Relocated.byLabel (a := a) (b := b) (c := c) j symbolic
  | nop | binary _ | unary _ | drop _ | dup _ | call _ _ | ret _ | control _ => exact .other _ rfl

end Moving

/-! ### Where the labels of a joined unit stand -/

def placeLabel (m : Std.HashMap Nat Nat) (x : Instr × Nat) : Std.HashMap Nat Nat :=
  match x.1 with
  | .label id => m.insert id x.2
  | _ => m

theorem labelAddressesFold (instrs : Array Instr) :
    labelAddresses instrs = instrs.toList.zipIdx.foldl placeLabel {} := by
  rw [labelAddresses, ← Array.foldl_toList, Array.toList_zipIdx]
  rfl

theorem placeLabelLast (L : Nat) : ∀ (xs : List (Instr × Nat)) (m : Std.HashMap Nat Nat),
    (xs.foldl placeLabel m)[L]? = ((xs.filter (·.1 == .label L)).getLast?.map (·.2)).or m[L]?
  | [], m => by simp
  | (op, pc) :: xs, m => by
    rw [List.foldl_cons, placeLabelLast L xs]
    cases op with
    | label id =>
      by_cases same : id = L
      · subst same
        have put : (placeLabel m (.label id, pc))[id]? = some pc := by simp [placeLabel]
        rw [put, List.filter_cons_of_pos (by simp), List.getLast?_cons]
        cases (xs.filter (·.1 == .label id)).getLast? <;> rfl
      · simp [placeLabel, Std.HashMap.getElem?_insert, same]
    | _ => simp [placeLabel]

theorem moveLabel {lits names locals : Array Nat} {base offset : Nat} {op : Instr} {id : Nat} :
    moveInstr lits names locals base offset op = .label id ↔ ∃ id', op = .label id' ∧ id = (id' + base) % 65536 := by
  cases op with
  | label id' =>
    simp only [moveInstr, Instr.label.injEq]
    exact ⟨fun moved => ⟨id', rfl, moved.symm⟩, fun ⟨_, same, moved⟩ => by cases same; exact moved.symm⟩
  | _ => simp [moveInstr]

theorem appendedLabelAt (lits names locals : Array Nat) {first : Array Instr} {base : Nat}
    (firstBelow : ∀ op ∈ first, op.labelBelow base = true) (allocated : b.LabelsAllocated)
    (fits : base + b.labelCount < 65536) (L : Nat) :
    (labelAddresses (first ++ b.instrs.map (moveInstr lits names locals base first.size)))[L + base]? =
      (labelAddresses b.instrs)[L]?.map (first.size + ·) := by
  rw [labelAddressesFold, labelAddressesFold, placeLabelLast, placeLabelLast, Array.toList_append,
    List.zipIdx_append, List.filter_append]
  -- no label of the first unit is `L + base`
  have notFirst : first.toList.zipIdx.filter (·.1 == .label (L + base)) = [] := by
    refine List.filter_eq_nil_iff.mpr fun x mem same => ?_
    obtain ⟨lt, eq⟩ := List.mem_zipIdx' (x := x.1) (i := x.2) mem
    have below := firstBelow x.1 (Array.mem_toList_iff.mp (by rw [eq]; exact List.getElem_mem lt))
    simp only [beq_iff_eq] at same
    simp only [same, Instr.labelBelow, decide_eq_true_eq] at below
    omega
  -- the moved unit puts `L + base` where it put `L`
  have moved : (b.instrs.toList.map (moveInstr lits names locals base first.size)).zipIdx (0 + first.toList.length) =
      b.instrs.toList.zipIdx.map fun x => (moveInstr lits names locals base first.size x.1, first.size + x.2) := by
    rewrite [List.zipIdx_map, List.zipIdx_eq_map_add, List.map_map]
    simp
  have same : ∀ x ∈ b.instrs.toList.zipIdx,
      (moveInstr lits names locals base first.size x.1 == .label (L + base)) = (x.1 == .label L) := by
    intro x mem
    obtain ⟨lt, eq⟩ := List.mem_zipIdx' (x := x.1) (i := x.2) mem
    have below := allocated x.1 (Array.mem_toList_iff.mp (by rw [eq]; exact List.getElem_mem lt))
    rw [Bool.eq_iff_iff, beq_iff_eq, beq_iff_eq, moveLabel]
    constructor
    · rintro ⟨id, labelled, wrapped⟩
      rw [labelled] at below ⊢
      simp only [Instr.labelBelow, decide_eq_true_eq] at below
      rw [Nat.mod_eq_of_lt (by omega)] at wrapped
      rw [show L = id by omega]
    · intro labelled
      rw [labelled] at below
      simp only [Instr.labelBelow, decide_eq_true_eq] at below
      exact ⟨L, labelled, (Nat.mod_eq_of_lt (by omega)).symm⟩
  rw [notFirst, List.nil_append, Array.toList_map, moved, List.filter_map]
  simp only [Function.comp_def]
  rw [List.filter_congr fun x mem => same x mem, List.getLast?_map, Option.map_map]
  simp [Function.comp_def]

/-! ### The line map of a joined unit

The line of an instruction is that of the last entry at or before it, so merging an entry into
the last one at its index changes no answer, and the appended map answers for the moved
instructions exactly as it answered before. -/

def lastLine (pc : Nat) (acc : Option Nat) (x : Nat × Nat) : Option Nat := if x.1 ≤ pc then some x.2 else acc

theorem lineForFold (c : Code) (pc : Nat) :
    c.lineFor? pc = c.lines.toList.foldl (lastLine (pc % 4294967296)) none := by
  rw [lineFor?, ← Array.foldl_toList]
  rfl

theorem lastLineStart (pc : Nat) : ∀ (l : List (Nat × Nat)) (start : Option Nat),
    l.foldl (lastLine pc) start = (l.foldl (lastLine pc) none).or start
  | [], start => by simp
  | x :: l, start => by
    have first : lastLine pc start x = (lastLine pc none x).or start := by
      unfold lastLine; split <;> simp
    rw [List.foldl_cons, List.foldl_cons, lastLineStart pc l, lastLineStart pc l (lastLine pc none x), first,
      Option.or_assoc]

theorem mergeLineLast (acc : Array (Nat × Nat)) (p line pc : Nat) :
    (mergeLine acc p line).toList.foldl (lastLine pc) none = (acc.toList ++ [(p, line)]).foldl (lastLine pc) none := by
  unfold mergeLine
  rcases last : acc.back? with _ | ⟨q, l⟩
  · simp
  · by_cases same : q = p
    · -- the entry merged into stands at the same index, so it is passed over or overridden
      obtain ⟨init, split⟩ : ∃ init, acc.toList = init ++ [(q, l)] :=
        List.getLast?_eq_some_iff.mp (by rw [Array.getLast?_toList]; exact last)
      subst same
      simp only [beq_self_eq_true, if_true, Array.toList_push, Array.toList_pop, split, List.dropLast_concat,
        List.foldl_append, List.foldl_cons, List.foldl_nil, lastLine]
      split <;> rfl
    · simp [same]

theorem shiftedLast (offset k : Nat) : ∀ (l : List (Nat × Nat)) (start : Option Nat),
    (l.map fun x => (x.1 + offset, x.2)).foldl (lastLine (offset + k)) start = l.foldl (lastLine k) start
  | [], _ => rfl
  | x :: l, start => by
    have same : lastLine (offset + k) start (x.1 + offset, x.2) = lastLine k start x := by
      unfold lastLine
      by_cases below : x.1 ≤ k
      · rw [if_pos below, if_pos (by dsimp only; omega)]
      · rw [if_neg below, if_neg (by dsimp only; omega)]
    rw [List.map_cons, List.foldl_cons, List.foldl_cons, same, shiftedLast offset k l]

theorem appendLinesLast (lines more : Array (Nat × Nat)) (offset pc : Nat) :
    (appendLines lines more offset).toList.foldl (lastLine pc) none =
      (lines.toList ++ more.toList.map fun x => (x.1 + offset, x.2)).foldl (lastLine pc) none := by
  rw [appendLinesFold]
  generalize more.toList = more
  induction more generalizing lines with
  | nil => simp
  | cons x more ih =>
    rw [List.foldl_cons, ih, List.foldl_append, mergeLineLast, ← List.foldl_append, List.map_cons,
      List.append_assoc, List.singleton_append]

theorem appendLinesLineFor (lines more : Array (Nat × Nat)) (offset k : Nat) :
    (appendLines lines more offset).toList.foldl (lastLine (offset + k)) none =
      (more.toList.foldl (lastLine k) none).or (lines.toList.foldl (lastLine (offset + k)) none) := by
  rw [appendLinesLast, List.foldl_append, lastLineStart, shiftedLast]

theorem mergeLineBelow (acc : Array (Nat × Nat)) {p n : Nat} (line : Nat) (above : n ≤ p) :
    (mergeLine acc p line).toList.filter (·.1 < n) = acc.toList.filter (·.1 < n) := by
  unfold mergeLine
  rcases last : acc.back? with _ | ⟨q, l⟩
  · simp [Nat.not_lt_of_le above]
  · by_cases same : q = p
    · obtain ⟨init, split⟩ : ∃ init, acc.toList = init ++ [(q, l)] :=
        List.getLast?_eq_some_iff.mp (by rw [Array.getLast?_toList]; exact last)
      subst same
      simp [Array.toList_pop, split, List.filter_append, Nat.not_lt_of_le above]
    · simp [same, List.filter_append, Nat.not_lt_of_le above]

theorem appendLinesBelow (lines more : Array (Nat × Nat)) (offset : Nat) :
    (appendLines lines more offset).toList.filter (·.1 < offset) = lines.toList.filter (·.1 < offset) := by
  rw [appendLinesFold]
  generalize more.toList = more
  induction more generalizing lines with
  | nil => rfl
  | cons x more ih =>
    rw [List.foldl_cons, ih, mergeLineBelow _ _ (Nat.le_add_left _ _)]

/-! ### A successful append -/

theorem relocateJump {k : Nat} {j : Jump} (at_k : c.instrs[k]? = some (.jump j)) (symbolic : j.symbolic = true) :
    c.relocate.instrs[k]? =
      some (.jump { j with target := (labelAddresses c.instrs)[j.target]?.getD c.size, symbolic := false }) := by
  simp [relocate, at_k, symbolic]

/-- What appending `b` to `a` makes in `c`: `a`'s code and table entries first, as they were;
then `b`'s instructions, relocated; labels for both; `a`'s line entries before the seam, and
`b`'s lines for its instructions while their indices fit in 32 bits; and relocation resolving
`b`'s jumps by label, those whose moved target does not wrap, to where relocating `b` alone
resolves them, moved past `a`'s code. -/
structure Appended (a b c : Code) : Prop where
  code : a.instrs.toList.IsPrefix c.instrs.toList
  literals : a.literals.toList.IsPrefix c.literals.toList
  names : a.names.toList.IsPrefix c.names.toList
  locals : a.locals.toList.IsPrefix c.locals.toList
  size : c.size = a.size + b.size
  moved : ∀ k op, b.instrs[k]? = some op → ∃ op', c.instrs[a.size + k]? = some op' ∧ Relocated a b c op op'
  labels : c.labelCount = a.labelCount + b.labelCount
  linesBefore : c.lines.toList.filter (·.1 < a.size) = a.lines.toList.filter (·.1 < a.size)
  lineFor : ∀ k line, a.size + k < 4294967296 → b.lineFor? k = some line → c.lineFor? (a.size + k) = some line
  jumps : ∀ k j, b.instrs[k]? = some (.jump j) → j.symbolic = true →
    j.target + a.labelCount < 4294967296 → ∃ t,
    b.relocate.instrs[k]? = some (.jump { j with target := t, symbolic := false }) ∧
    c.relocate.instrs[a.size + k]? = some (.jump { j with target := a.size + t, symbolic := false })

/-- What the three merges of a successful append leave: the body of `a`, its tables with entries
added at their ends, and renumbering tables that send each entry of `b`'s tables to an equal
entry of the merged ones. -/
structure Merged (a b c : Code) (literalMap nameMap localMap : Array Nat) : Prop where
  body : SameBody a c
  literals : a.literals.toList.IsPrefix c.literals.toList
  names : a.names.toList.IsPrefix c.names.toList
  locals : a.locals.toList.IsPrefix c.locals.toList
  literalsAnswered : ∀ i v, b.literals[i]? = some v →
    ∃ w, c.literals[renumber literalMap i]? = some w ∧ w.sameLiteral v = true
  namesAnswered : ∀ i n, b.names[i]? = some n → c.names[renumber nameMap i]? = some n
  localsAnswered : ∀ i n, b.locals[i]? = some n → c.locals[renumber localMap i]? = some n

theorem threeMerges {c₁ c₂ : Code} {lits names locals : Array Nat} (tables : a.TablesOk)
    (lit : addAll addLiteral a b.literals.toList = (c₁, .ok lits))
    (name : addAll addName c₁ b.names.toList = (c₂, .ok names))
    (loc : addAll addLocal c₂ b.locals.toList = (c, .ok locals)) : Merged a b c lits names locals := by
  -- each merge changes its own table only, by entries at its end
  have tables₁ : c₁.TablesOk := by
    simpa [lit] using addAllKeeps addLiteral TablesOk (fun c v ok => addLiteralTables ok v) b.literals.toList a tables
  have keeps₁ := addAllLiteralsKeeps b.literals.toList a
  obtain ⟨extra₁, -, grown₁⟩ := addAllLiteralsTake b.literals.toList a
  simp only [lit] at keeps₁ grown₁
  have keeps₂ := addAllNamesKeeps b.names.toList c₁
  obtain ⟨extra₂, -, grown₂⟩ := addAllNamesTake b.names.toList c₁
  simp only [name] at keeps₂ grown₂
  have keeps₃ := addAllLocalsKeeps b.locals.toList c₂
  obtain ⟨extra₃, -, grown₃⟩ := addAllLocalsTake b.locals.toList c₂
  simp only [loc] at keeps₃ grown₃
  -- each renumbering table answers for every entry of `b`'s table
  have literalsAnswered := (addAllAnswers addLiteral (fun c => c.literals.toList) id (fun w v => w.sameLiteral v = true)
    (fun _ => True) (fun _ _ _ => trivial) (fun _ v => addLiteralGrows v)
    (fun _ added => by simpa using addLiteralFound added) b.literals.toList a c₁ lits trivial lit).2
  have namesAnswered := (addAllAnswers addName (fun c => c.names.toList) id Eq TablesOk
    (fun _ n ok => addNameTables ok n) (fun _ n => addNameGrows n)
    (fun ok added => ⟨_, by simpa using addNameFound ok added, rfl⟩) b.names.toList c₁ c₂ names tables₁ name).2
  have localsAnswered := (addAllAnswers addLocal (fun c => c.locals.toList) id Eq (fun _ => True)
    (fun _ _ _ => trivial) (fun _ n => addLocalGrows n)
    (fun _ added => ⟨_, by simpa using addLocalFound added, rfl⟩) b.locals.toList c₂ c locals trivial loc).2
  obtain ⟨L, rfl⟩ : ∃ L, c₁ = { a with literals := L } := ⟨_, keeps₁⟩
  obtain ⟨N, I, rfl⟩ : ∃ N I, c₂ = { a with literals := L, names := N, nameIndex := I } := ⟨_, _, keeps₂⟩
  obtain ⟨Lo, rfl⟩ : ∃ Lo, c = { a with literals := L, names := N, nameIndex := I, locals := Lo } := ⟨_, keeps₃⟩
  refine ⟨⟨rfl, rfl, rfl⟩, ⟨extra₁, grown₁.symm⟩, ⟨extra₂, grown₂.symm⟩, ⟨extra₃, grown₃.symm⟩, ?_, ?_, ?_⟩
  · intro i v at_i
    simpa using literalsAnswered i v (by simpa using at_i)
  · intro i n at_i
    obtain ⟨_, found, rfl⟩ := namesAnswered i n (by simpa using at_i)
    simpa using found
  · intro i n at_i
    obtain ⟨_, found, rfl⟩ := localsAnswered i n (by simpa using at_i)
    simpa using found

/-- Appending a unit whose operands are in range and whose labels are allocated to a sound unit
whose labels are allocated renumbers it as `Appended` says. -/
theorem appendRenumbers (tables : a.TablesOk) (placed : a.LabelsAllocated) (allocated : b.LabelsAllocated)
    (inRange : b.OperandsInRange) (ok : a.append b = (c, none)) : Appended a b c := by
  obtain ⟨c₁, lits, c₂, names, c₃, locals, fits, lit, name, loc, rfl⟩ := appendSucceeds ok
  have merged := threeMerges tables lit name loc
  have movedAt : ∀ k, (a.instrs ++ b.instrs.map (moveInstr lits names locals a.labelCount a.size))[a.size + k]? =
      b.instrs[k]?.map (moveInstr lits names locals a.labelCount a.size) := fun k => by
    rw [Array.getElem?_append_right (by simp [size]), Array.getElem?_map]
    simp [size]
  simp only [merged.body.instrs, merged.body.lines, merged.body.labels]
  refine ⟨?code, merged.literals, merged.names, merged.locals, ?size, ?moved, rfl, ?before, ?lineFor, ?jumps⟩
  case code =>
    rw [Array.toList_append]; exact List.prefix_append _ _
  case size => simp [size]
  case moved =>
    intro k op at_k
    have mem := Array.mem_of_getElem? at_k
    refine ⟨_, (movedAt k).trans (by rw [at_k]; rfl), ?_⟩
    exact (moveRelocated merged.literalsAnswered merged.namesAnswered merged.localsAnswered fits (inRange op mem)
      (allocated op mem)).ofTables rfl rfl rfl
  case before => exact appendLinesBelow a.lines b.lines a.size
  case lineFor =>
    intro k line fits at_k
    rw [lineForFold, Nat.mod_eq_of_lt (by omega)] at at_k
    rw [lineForFold, Nat.mod_eq_of_lt fits]
    show (appendLines a.lines b.lines a.size).toList.foldl (lastLine (a.size + k)) none = some line
    rw [appendLinesLineFor, at_k]
    rfl
  case jumps =>
    intro k j at_k symbolic unwrapped
    refine ⟨_, relocateJump at_k symbolic, ?_⟩
    have moved : (a.instrs ++ b.instrs.map (moveInstr lits names locals a.labelCount a.size))[a.size + k]? =
        some (.jump { j with target := j.target + a.labelCount }) := by
      rw [movedAt, at_k]; simp [moveInstr, symbolic, Nat.mod_eq_of_lt unwrapped]
    rw [relocateJump (j := { j with target := j.target + a.labelCount }) moved symbolic]
    -- the label the jump names stands where it stood in `b`, moved past `a`'s code
    have at_label := appendedLabelAt lits names locals placed allocated
      (by simp only [labelLimit] at fits; omega) j.target
    simp only [size] at at_label ⊢
    simp only [at_label]
    cases (labelAddresses b.instrs)[j.target]? <;> simp

/-- A unit with a literal, a label and a jump to it, followed by one that shares the literal,
adds another, uses a local, and jumps both to its own label and by index. -/
theorem appendedUnitRenumbered :
    let a : Code :=
      { instrs := #[.pushLiteral 0, .label 0, .jump ⟨.always, false, true, 0⟩]
        literals := #[.int 1]
        labelCount := 1
        lines := #[(0, 10)] }
    let b : Code :=
      { instrs := #[.pushLiteral 1, .pushLocal 0, .label 0, .jump ⟨.ifTrue, false, true, 0⟩,
          .jump ⟨.always, false, false, 0⟩]
        literals := #[.int 2, .int 1]
        locals := #["y"]
        labelCount := 1
        lines := #[(0, 20), (2, 21)] }
    a.TablesOk ∧ a.LabelsAllocated ∧ b.LabelsAllocated ∧ b.OperandsInRange ∧ (a.append b).2 = none ∧
      Appended a b (a.append b).1 := by
  intro a b
  have tables : a.TablesOk := ⟨by decide, fun n i => by simp [a], by decide, by decide, by decide, by decide, by decide⟩
  have placed : a.LabelsAllocated := by decide
  have allocated : b.LabelsAllocated := by decide
  have inRange : b.OperandsInRange := by decide
  have ok : (a.append b).2 = none := by decide +kernel
  exact ⟨tables, placed, allocated, inRange, ok, appendRenumbers tables placed allocated inRange (Prod.ext rfl ok)⟩

/-- Jump targets are 32-bit: a jump by index to `2 ^ 32 - 1`, appended after a unit of one
instruction, wraps around to the joined unit's first instruction. -/
theorem appendedJumpWraps :
    let a : Code := { instrs := #[.nop] }
    let b : Code := { instrs := #[.jump ⟨.always, false, false, 4294967295⟩] }
    (a.append b).2 = none ∧ (a.append b).1.instrs[a.size]? = some (.jump ⟨.always, false, false, 0⟩) := by
  decide +kernel

/-! ### A failed append -/

/-- What a failed append leaves of unit `a` in `c`: its code, labels and line map, the whole
unit when the labels were refused, and in each table the old entries followed by some of
`b`'s, in order; only the table that filled up and the ones merged before it have changed. -/
structure FailedAppend (a b c : Code) (e : TableFull) : Prop where
  instrs : c.instrs = a.instrs
  labels : c.labelCount = a.labelCount
  lines : c.lines = a.lines
  refused : e = .labels → c = a
  literals : ∃ extra, List.Sublist extra b.literals.toList ∧ c.literals.toList = a.literals.toList ++ extra
  names : ∃ extra, List.Sublist extra b.names.toList ∧ c.names.toList = a.names.toList ++ extra
  locals : ∃ extra, List.Sublist extra b.locals.toList ∧ c.locals.toList = a.locals.toList ++ extra
  namesKept : e = .literals → c.names = a.names ∧ c.nameIndex = a.nameIndex
  localsKept : e ≠ .locals → c.locals = a.locals

/-- A failed append is not undone: the merges before the failure keep what they took in. -/
theorem failedAppendKeeps (failed : a.append b = (c, some e)) : FailedAppend a b c e := by
  have unchanged {α : Type} (l : List α) (xs : List α) : ∃ extra, List.Sublist extra xs ∧ l = l ++ extra :=
    ⟨[], List.nil_sublist xs, (List.append_nil l).symm⟩
  rcases appendFails failed with ⟨rfl, rfl⟩ | lit | ⟨c₁, lits, lit, name⟩ | ⟨c₁, lits, c₂, names, lit, name, loc⟩
  · exact ⟨rfl, rfl, rfl, fun _ => rfl, unchanged _ _, unchanged _ _, unchanged _ _, (fun h => by cases h), fun _ => rfl⟩
  · have full := addAllError addLiteral (fun _ _ _ _ h => addLiteralError h) _ a (by rw [lit])
    obtain ⟨extra, sub, grown⟩ := addAllLiteralsTake b.literals.toList a
    have keeps := addAllLiteralsKeeps b.literals.toList a
    simp only [lit] at grown keeps
    obtain ⟨L, rfl⟩ : ∃ L, c = { a with literals := L } := ⟨_, keeps⟩
    subst full
    exact ⟨rfl, rfl, rfl, (fun h => by cases h), ⟨extra, sub, grown⟩, unchanged _ _, unchanged _ _, fun _ => ⟨rfl, rfl⟩,
      fun _ => rfl⟩
  · -- the literals went in; the names filled up
    obtain ⟨extra₁, sub₁, grown₁⟩ := addAllLiteralsTake b.literals.toList a
    have keeps₁ := addAllLiteralsKeeps b.literals.toList a
    simp only [lit] at grown₁ keeps₁
    obtain ⟨L, rfl⟩ : ∃ L, c₁ = { a with literals := L } := ⟨_, keeps₁⟩
    have full := addAllError addName (fun _ _ _ _ h => addNameError h) _ _ (by rw [name])
    obtain ⟨extra₂, sub₂, grown₂⟩ := addAllNamesTake b.names.toList { a with literals := L }
    have keeps₂ := addAllNamesKeeps b.names.toList { a with literals := L }
    simp only [name] at grown₂ keeps₂
    obtain ⟨N, I, rfl⟩ : ∃ N I, c = { a with literals := L, names := N, nameIndex := I } := ⟨_, _, keeps₂⟩
    subst full
    exact ⟨rfl, rfl, rfl, (fun h => by cases h), ⟨extra₁, sub₁, grown₁⟩, ⟨extra₂, sub₂, grown₂⟩, unchanged _ _,
      (fun h => by cases h), fun _ => rfl⟩
  · -- the literals and names went in; the locals filled up
    obtain ⟨extra₁, sub₁, grown₁⟩ := addAllLiteralsTake b.literals.toList a
    have keeps₁ := addAllLiteralsKeeps b.literals.toList a
    simp only [lit] at grown₁ keeps₁
    obtain ⟨L, rfl⟩ : ∃ L, c₁ = { a with literals := L } := ⟨_, keeps₁⟩
    obtain ⟨extra₂, sub₂, grown₂⟩ := addAllNamesTake b.names.toList { a with literals := L }
    have keeps₂ := addAllNamesKeeps b.names.toList { a with literals := L }
    simp only [name] at grown₂ keeps₂
    obtain ⟨N, I, rfl⟩ : ∃ N I, c₂ = { a with literals := L, names := N, nameIndex := I } := ⟨_, _, keeps₂⟩
    have full := addAllError addLocal (fun _ _ _ _ h => addLocalError h) _ _ (by rw [loc])
    obtain ⟨extra₃, sub₃, grown₃⟩ := addAllLocalsTake b.locals.toList { a with literals := L, names := N, nameIndex := I }
    have keeps₃ := addAllLocalsKeeps b.locals.toList { a with literals := L, names := N, nameIndex := I }
    simp only [loc] at grown₃ keeps₃
    obtain ⟨Lo, rfl⟩ : ∃ Lo, c = { a with literals := L, names := N, nameIndex := I, locals := Lo } :=
      ⟨_, keeps₃⟩
    subst full
    exact ⟨rfl, rfl, rfl, (fun h => by cases h), ⟨extra₁, sub₁, grown₁⟩, ⟨extra₂, sub₂, grown₂⟩,
      ⟨extra₃, sub₃, grown₃⟩, (fun h => by cases h), fun h => absurd rfl h⟩

/-! ### Naming in bulk -/

theorem reprInjective {i j : Nat} (same : toString i = toString j) : i = j := by
  have digits := congrArg String.toList same
  simp only [Nat.toString_eq_ofList_toDigits, String.toList_ofList] at digits
  rw [← Nat.ofDigitChars_ten_toDigits (n := i), digits, Nat.ofDigitChars_ten_toDigits]

theorem stemInjective {stem : String} {i j : Nat} (same : stem ++ toString i = stem ++ toString j) :
    i = j := by
  have chars := congrArg String.toList same
  rw [String.toList_append, String.toList_append] at chars
  exact reprInjective (String.toList_injective (List.append_cancel_left chars))

theorem addNameFresh {n : String} (missing : n ∉ c.names) (ok : c.TablesOk) (room : c.names.size < tableLimit) :
    c.addName n = ({ c with names := c.names.push n, nameIndex := c.nameIndex.insert n c.names.size },
      .ok c.names.size) := by
  have unindexed : c.nameIndex[n]? = none := by
    cases found : c.nameIndex[n]? with
    | none => rfl
    | some i => exact absurd (Array.mem_of_getElem? ((ok.nameIndex n i).mp found)) missing
  simp [addName, unindexed, Nat.not_le_of_lt room]

theorem namesBulkAdds (stem : String) :
    ∀ (left i : Nat) (c : Code) (made : Batch), c.TablesOk →
      (∀ j, i ≤ j → j < i + left → stem ++ toString j ∉ c.names) → c.names.size + left ≤ tableLimit →
      (Session.repeatAdd (fun c i => c.addName (stem ++ toString i)) c made i left).1.names.toList =
        c.names.toList ++ (List.range' i left).map fun j => stem ++ toString j
  | 0, _, _, _, _, _, _ => by simp [Session.repeatAdd]
  | left + 1, i, c, made, ok, missing, room => by
    have fresh := addNameFresh (missing i (Nat.le_refl i) (by omega)) ok (by omega)
    have ok' := addNameTables ok (stem ++ toString i)
    rw [fresh] at ok'
    unfold Session.repeatAdd
    rw [fresh]
    dsimp only
    -- the later names are new to the grown table as well: none of them is the one just added
    rw [namesBulkAdds stem left (i + 1) _ _ ok' (fun j above below => by
        simp only [Array.mem_push, not_or]
        exact ⟨missing j (by omega) (by omega), fun same => by have := stemInjective same; omega⟩)
      (by simp only [Array.size_push]; omega)]
    simp [List.range'_succ]

theorem fullNameTableAppend :
    let a := (Session.buildFresh {} [.namesBulk "n" 65536]).2.1
    let b : Code := { literals := #[.int 7], names := #["z"], nameIndex := (∅ : Std.HashMap String Nat).insert "z" 0 }
    a.append b = ({ a with literals := #[.int 7] }, some .names) ∧ a.literals = #[] := by
  intro a b
  have bulk : a = (Session.repeatAdd (fun c i => c.addName ("n" ++ toString i)) Code.empty ⟨0, none, none⟩ 0
      65536).1 := rfl
  have ok : a.TablesOk :=
    bulk ▸ repeatAddKeeps _ TablesOk (fun _ _ ok => addNameTables ok _) _ _ _ _ emptyWellFormed.tables
  have noLiterals : a.literals = #[] := bulk ▸ repeatAddKeeps _ (fun c => c.literals = #[])
    (fun c _ absent => by rw [addNameKeeps]; exact absent) _ _ _ _ rfl
  have noLabels : a.labelCount = 0 := bulk ▸ repeatAddKeeps _ (fun c => c.labelCount = 0)
    (fun c _ absent => by rw [addNameKeeps]; exact absent) _ _ _ _ rfl
  have names : a.names.toList = (List.range' 0 65536).map fun j => "n" ++ toString j := by
    rw [bulk, namesBulkAdds "n" 65536 0 Code.empty _ emptyWellFormed.tables (by simp [empty])
      (by simp [empty, tableLimit])]
    rfl
  have full : a.names.size = tableLimit := by
    rw [← Array.length_toList, names]; simp [tableLimit]
  -- `z` is none of the names: each of them starts with `n`
  have noZ : "z" ∉ a.names := by
    rw [← Array.mem_toList_iff, names]
    simp only [List.mem_map, not_exists, not_and]
    intro j _ same
    have chars := congrArg String.toList same
    rw [String.toList_append] at chars
    simp at chars
  have unindexed : a.nameIndex["z"]? = none := by
    cases found : a.nameIndex["z"]? with
    | none => rfl
    | some i => exact absurd (Array.mem_of_getElem? ((ok.nameIndex "z" i).mp found)) noZ
  refine ⟨?_, noLiterals⟩
  simp [append, addAll, addLiteral, addName, noLiterals, noLabels, unindexed, full, b, labelLimit, tableLimit]

theorem fullNameTableAppendKeepsBody :
    let a := (Session.buildFresh {} [.namesBulk "n" 65536]).2.1
    let b : Code := { literals := #[.int 7], names := #["z"], nameIndex := (∅ : Std.HashMap String Nat).insert "z" 0 }
    a.append b = ({ a with literals := #[.int 7] }, some .names) ∧
      FailedAppend a b { a with literals := #[.int 7] } .names := by
  intro a b
  have failed := fullNameTableAppend.1
  exact ⟨failed, failedAppendKeeps failed⟩

/-- A refused append is not undone: appending to a unit whose name table is full is refused,
yet the unit's literal pool, empty before, now holds the literal 7. -/
theorem failedAppendKeepsLiteral :
    let a := (Session.buildFresh {} [.namesBulk "n" 65536]).2.1
    let b : Code := { literals := #[.int 7], names := #["z"], nameIndex := (∅ : Std.HashMap String Nat).insert "z" 0 }
    (a.append b).2 = some .names ∧ (a.append b).1.literals ≠ a.literals := by
  intro a b
  obtain ⟨failed, empty⟩ := fullNameTableAppend
  rw [failed]
  exact ⟨rfl, by rw [empty]; simp⟩

end Code

end ScriptEngine
