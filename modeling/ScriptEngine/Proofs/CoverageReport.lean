import Mathlib.Data.String.Basic
import Mathlib.Data.Finset.Card
import ScriptEngine.Proofs.CoverageRecord
/-!
The coverage report is well formed lcov. A record lists each file once and each line once in
its file, as the recorder keeps them (`Coverage.Keyed`, kept by registering and observing).
The report has one record per file, in strictly ascending order of file name. A record
names the test and the file, then gives each function entry of the file, ordered by name
and first line, under a name of its own: the function's name, `anon` if it has none, or
the first of that name with `_1`, `_2`, ... appended that the record has not used, found
within as many tries as there are names before it. The counts of functions and of functions
that ran follow, then each line with its hit flag in strictly ascending order.
-/
namespace ScriptEngine

/-! ### The lcov format -/

namespace Lcov

/-- One function of a record: its first line, the name it is reported under and whether it
ran. -/
structure Entry where
  line : Nat
  name : String
  hit : Bool
  deriving DecidableEq, Repr

/-- What one record states: the test, the source file, its functions, the counts of
functions found (`FNF`) and hit (`FNH`), and its lines with their hit flags. -/
structure Record where
  test : String
  file : String
  functions : List Entry
  found : Nat
  hitCount : Nat
  lines : List (Nat × Bool)
  deriving DecidableEq, Repr

def hitText (hit : Bool) : String := if hit then "1" else "0"

def Entry.text (e : Entry) : String :=
  "FN:" ++ toString e.line ++ "," ++ e.name ++ "\nFNDA:" ++ hitText e.hit ++ "," ++ e.name ++ "\n"

def lineText (l : Nat × Bool) : String := "DA:" ++ toString l.1 ++ "," ++ hitText l.2 ++ "\n"

/-- A record in lcov syntax: `TN` and `SF`, the functions, `FNF` and `FNH`, the lines and
`end_of_record`. -/
def Record.text (r : Record) : String :=
  "TN:" ++ r.test ++ "\nSF:" ++ r.file ++ "\n" ++ String.join (r.functions.map Entry.text) ++
    "FNF:" ++ toString r.found ++ "\nFNH:" ++ toString r.hitCount ++ "\n" ++
    String.join (r.lines.map lineText) ++ "end_of_record\n"

end Lcov

namespace Coverage

/-! ### Numbered names -/

/-- The name a function is reported under before numbering: `anon` for a nameless one. -/
def baseName (name : String) : String := if name.isEmpty then "anon" else name

/-- The `k`th name tried for `base`: `base` itself, then `base_1`, `base_2`, ... -/
def numbered (base : String) : Nat → String
  | 0 => base
  | k + 1 => base ++ "_" ++ toString (k + 1)

theorem toStringInjective {a b : Nat} (same : toString a = toString b) : a = b := by
  have digits : String.ofList (Nat.toDigits 10 a) = String.ofList (Nat.toDigits 10 b) := same
  simpa using congrArg (fun s => Nat.ofDigitChars 10 s.toList 0) digits

theorem numberedLong (base : String) (k : Nat) : base.length < (numbered base (k + 1)).length := by
  have mark : ("_" : String).length = 1 := rfl
  simp only [numbered, String.length_append, mark]
  omega

theorem numberedInjective (base : String) {i j : Nat} (same : numbered base i = numbered base j) : i = j := by
  cases i with
  | zero =>
    cases j with
    | zero => rfl
    | succ j => exact absurd (congrArg String.length same) (Nat.ne_of_lt (numberedLong base j))
  | succ i =>
    cases j with
    | zero => exact absurd (congrArg String.length same) (Nat.ne_of_lt (numberedLong base i)).symm
    | succ j =>
      simp only [numbered, String.append_assoc, String.append_right_inj] at same
      exact toStringInjective same

theorem uniqueNameTries (used : List String) (name : String) :
    uniqueName used name = (((List.range (used.length + 2)).map (numbered (baseName name))).find?
      fun c => !used.contains c).getD (baseName name) := by
  rw [uniqueName, List.range_succ_eq_map (n := used.length + 1), List.map_cons, List.map_map]
  rfl

theorem freeNumbered (used : List String) (base : String) : ∃ k ≤ used.length, numbered base k ∉ used := by
  by_contra full
  push Not at full
  have fits := Finset.card_le_card_of_injOn (numbered base) (s := Finset.range (used.length + 1))
    (t := used.toFinset) (fun k mem => by simpa using full k (Nat.lt_succ_iff.mp (by simpa using mem)))
    (fun i _ j _ same => numberedInjective base same)
  have := used.toFinset_card_le
  simp only [Finset.card_range] at fits
  omega

theorem uniqueNameFirstFree (used : List String) (name : String) :
    ∃ k ≤ used.length, uniqueName used name = numbered (baseName name) k ∧
      numbered (baseName name) k ∉ used ∧ ∀ i < k, numbered (baseName name) i ∈ used := by
  obtain ⟨free, le, unused⟩ := freeNumbered used (baseName name)
  rw [uniqueNameTries]
  have inside : free < used.length + 2 := by omega
  obtain ⟨c, found⟩ : ∃ c, ((List.range (used.length + 2)).map (numbered (baseName name))).find?
      (fun c => !used.contains c) = some c := by
    refine Option.isSome_iff_exists.mp (List.find?_isSome.mpr ⟨numbered (baseName name) free, ?_, ?_⟩)
    · exact List.mem_map.mpr ⟨free, List.mem_range.mpr inside, rfl⟩
    · simpa using unused
  obtain ⟨fresh, k, bound, named, before⟩ := List.find?_eq_some_iff_getElem.mp found
  simp only [List.getElem_map, List.getElem_range, List.length_map, List.length_range] at named before bound
  subst named
  -- every earlier try is in use, so the first free one comes no later than `free`
  have early : k ≤ free := by
    by_contra late
    have := before free (by omega)
    simp [unused] at this
  refine ⟨k, by omega, by rw [found]; rfl, by simpa using fresh, fun i lt => ?_⟩
  simpa using before i (by omega)

example : uniqueName ["f", "f_1", "anon"] "f" = "f_2" ∧ uniqueName ["f", "f_1", "anon"] "" = "anon_1" := by
  decide

end Coverage

/-! ### Each file once, each line once -/

section Keys

variable {κ ν : Type} {xs : Array (κ × ν)}

theorem keysPush [BEq κ] [LawfulBEq κ] (keyed : (xs.toList.map (·.1)).Nodup) {k : κ}
    (absent : ¬(xs.any fun x => x.1 == k) = true) (v : ν) :
    ((xs.push (k, v)).toList.map (·.1)).Nodup := by
  simp only [Array.toList_push, List.map_append, List.map_cons, List.map_nil]
  refine List.nodup_append.mpr ⟨keyed, List.nodup_singleton k, fun a mem b same eq => ?_⟩
  obtain ⟨x, xmem, rfl⟩ := List.mem_map.mp mem
  rw [List.mem_singleton] at same
  exact absent (Array.any_eq_true'.mpr ⟨x, Array.mem_toList_iff.mp xmem, by simp [eq, same]⟩)

theorem keysMap (keyed : (xs.toList.map (·.1)).Nodup) {g : κ × ν → κ × ν}
    (keeps : ∀ x, (g x).1 = x.1) : ((xs.map g).toList.map (·.1)).Nodup := by
  rw [Array.toList_map, List.map_map]
  convert keyed using 2
  exact funext keeps

end Keys

namespace FileHits

variable {f : FileHits} {l : Nat}

theorem addLineKeyed (keyed : (f.lines.toList.map (·.1)).Nodup) :
    ((f.addLine l).lines.toList.map (·.1)).Nodup := by
  unfold addLine
  split
  · exact keyed
  · rename_i absent
    exact keysPush keyed absent false

theorem hitLineKeyed (keyed : (f.lines.toList.map (·.1)).Nodup) :
    ((f.hitLine l).lines.toList.map (·.1)).Nodup := by
  unfold hitLine
  split
  · -- marking a listed line keeps every line number
    refine keysMap keyed fun x => ?_
    rcases x with ⟨l', h⟩
    dsimp only
    split <;> rfl
  · rename_i absent
    exact keysPush keyed absent true

theorem addLinesKeyed (lines : Array (Nat × Nat)) (f : FileHits) (keyed : (f.lines.toList.map (·.1)).Nodup) :
    ((lines.foldl (fun f x => f.addLine x.2) f).lines.toList.map (·.1)).Nodup := by
  rw [← Array.foldl_toList]
  induction lines.toList generalizing f with
  | nil => exact keyed
  | cons x lines ih => exact ih _ (addLineKeyed keyed)

end FileHits

namespace Coverage

variable {cov : Coverage}

/-- What the recorder keeps of its maps: each file is recorded once, and each line once in
its file. -/
structure Keyed (cov : Coverage) : Prop where
  files : (cov.files.toList.map (·.1)).Nodup
  lines : ∀ x ∈ cov.files, (x.2.lines.toList.map (·.1)).Nodup

theorem Keyed.file (keyed : cov.Keyed) (name : String) : ((cov.file name).lines.toList.map (·.1)).Nodup := by
  unfold Coverage.file
  cases found : cov.files.find? (·.1 == name) with
  | none => exact List.nodup_nil
  | some x => exact keyed.lines x (Array.mem_of_find?_eq_some found)

theorem Keyed.fileOf (keyed : cov.Keyed) {name : String} {f : FileHits} (mem : (name, f) ∈ cov.files) :
    cov.file name = f := by
  unfold Coverage.file
  obtain ⟨x, found⟩ : ∃ x, cov.files.find? (·.1 == name) = some x :=
    Option.isSome_iff_exists.mp (Array.find?_isSome.mpr ⟨_, mem, by simp⟩)
  have named : x.1 = name := by simpa using Array.find?_some found
  have same := List.inj_on_of_nodup_map keyed.files (Array.mem_toList_iff.mpr (Array.mem_of_find?_eq_some found))
    (Array.mem_toList_iff.mpr mem) named
  rw [found, same]
  rfl

theorem Keyed.setFile (keyed : cov.Keyed) (name : String) {f : FileHits}
    (lines : (f.lines.toList.map (·.1)).Nodup) : (cov.setFile name f).Keyed := by
  unfold Coverage.setFile
  split
  · -- the file is replaced in place
    constructor
    · refine keysMap keyed.files fun x => ?_
      rcases x with ⟨n, g⟩
      dsimp only
      split <;> rfl
    · intro x mem
      obtain ⟨y, mem', rfl⟩ := Array.mem_map.mp mem
      rcases y with ⟨n, g⟩
      dsimp only
      split
      · exact lines
      · exact keyed.lines _ mem'
  · rename_i absent
    constructor
    · exact keysPush keyed.files absent f
    · intro x mem
      rcases Array.mem_push.mp mem with mem | rfl
      · exact keyed.lines x mem
      · exact lines

theorem Keyed.record (keyed : cov.Keyed) (id : CodeId) (c : Code) : (cov.record id c).Keyed := by
  unfold Coverage.record
  split
  · exact ⟨keyed.files, keyed.lines⟩
  · have set := keyed.setFile c.file
      (f := let f := c.lines.foldl (fun f x => f.addLine x.2) (cov.file c.file)
        { f with functions := f.functions.push ⟨c.name, c.firstLine?.getD 0, false⟩ })
      (FileHits.addLinesKeyed c.lines _ (keyed.file c.file))
    exact ⟨set.files, set.lines⟩

theorem Keyed.addFrom (codes : CodeId → Option Code) :
    ∀ (fuel : Nat) (cov : Coverage) (id : CodeId), cov.Keyed → (addFrom codes fuel cov id).Keyed
  | 0, _, _, keyed => keyed
  | fuel + 1, cov, id, keyed => by
    rw [Coverage.addFrom]
    split
    · exact keyed
    · split
      · exact keyed
      · rename_i c found
        have literals : ∀ (ids : List CodeId) (cov : Coverage), cov.Keyed →
            (ids.foldl (Coverage.addFrom codes fuel) cov).Keyed := by
          intro ids
          induction ids with
          | nil => exact fun _ keyed => keyed
          | cons x ids ih => exact fun cov keyed => ih _ (Keyed.addFrom codes fuel cov x keyed)
        exact literals _ _ (keyed.record id c)

theorem Keyed.observe (keyed : cov.Keyed) (codes : CodeId → Option Code) (count : Nat) (x : CodeId)
    (pc : Nat) : (cov.observe codes count x pc).Keyed := by
  unfold Coverage.observe
  dsimp only
  have keyed₁ : (if cov.isRegistered x then cov else cov.add codes count x).Keyed := by
    split
    · exact keyed
    · exact keyed.addFrom codes (count + 1) cov x
  generalize (if cov.isRegistered x then cov else cov.add codes count x) = cov₁ at keyed₁
  split
  · exact keyed₁
  · rename_i F i slot
    apply keyed₁.setFile F
    -- the file's lines, with at most the line of the next instruction marked
    split
    · split
      · split
        · exact FileHits.hitLineKeyed (keyed₁.file F)
        · exact keyed₁.file F
      · exact keyed₁.file F
    · exact keyed₁.file F

/-- The states the recorder reaches from empty by registering and observing units, against
whatever units the engine has at each step. -/
inductive Recorded : Coverage → Prop
  | empty : Recorded {}
  | add {cov : Coverage} (codes : CodeId → Option Code) (count : Nat) (id : CodeId) :
      Recorded cov → Recorded (cov.add codes count id)
  | observe {cov : Coverage} (codes : CodeId → Option Code) (count : Nat) (id : CodeId) (pc : Nat) :
      Recorded cov → Recorded (cov.observe codes count id pc)

theorem Recorded.keyed (recorded : Recorded cov) : cov.Keyed := by
  induction recorded with
  | empty => exact ⟨List.nodup_nil, fun x mem => by simp at mem⟩
  | add codes count id _ keyed => exact keyed.addFrom codes (count + 1) _ id
  | observe codes count id pc _ keyed => exact keyed.observe codes count id pc

/-! ### The records of the report -/

/-- The order of a record's functions: by name, then by first line. -/
def functionOrder (a b : FunctionHits) : Bool :=
  a.name < b.name || (a.name == b.name && a.firstLine ≤ b.firstLine)

theorem functionOrderIff {a b : FunctionHits} :
    functionOrder a b = true ↔ a.name < b.name ∨ a.name = b.name ∧ a.firstLine ≤ b.firstLine := by
  simp [functionOrder]

theorem functionOrderTrans (a b c : FunctionHits) (ab : functionOrder a b = true)
    (bc : functionOrder b c = true) : functionOrder a c = true := by
  rw [functionOrderIff] at *
  rcases ab with lt | ⟨same, le⟩ <;> rcases bc with lt' | ⟨same', le'⟩
  · exact .inl (lt_trans lt lt')
  · exact .inl (same' ▸ lt)
  · exact .inl (same ▸ lt')
  · exact .inr ⟨same.trans same', Nat.le_trans le le'⟩

theorem functionOrderTotal (a b : FunctionHits) : (functionOrder a b || functionOrder b a) = true := by
  rw [Bool.or_eq_true, functionOrderIff, functionOrderIff]
  rcases lt_trichotomy a.name b.name with lt | same | gt
  · exact .inl (.inl lt)
  · rcases Nat.le_total a.firstLine b.firstLine with le | le
    · exact .inl (.inr ⟨same, le⟩)
    · exact .inr (.inr ⟨same.symm, le⟩)
  · exact .inr (.inl gt)

/-- A record's function entries for `gs`, in order, each under the name `uniqueName` gives
against the names before it. -/
def entries : List String → List FunctionHits → List Lcov.Entry
  | _, [] => []
  | used, g :: gs => ⟨g.firstLine, uniqueName used g.name, g.hit⟩ :: entries (uniqueName used g.name :: used) gs

theorem entriesLineHit (used : List String) (gs : List FunctionHits) :
    (entries used gs).map (fun e => (e.line, e.hit)) = gs.map fun g => (g.firstLine, g.hit) := by
  induction gs generalizing used with
  | nil => rfl
  | cons g gs ih => simp [entries, ih]

theorem entriesFresh (used : List String) (gs : List FunctionHits) :
    ((entries used gs).map (·.name)).Nodup ∧ ∀ n ∈ (entries used gs).map (·.name), n ∉ used := by
  induction gs generalizing used with
  | nil => exact ⟨List.nodup_nil, fun n mem => by simp [entries] at mem⟩
  | cons g gs ih =>
    obtain ⟨k, -, named, fresh, -⟩ := uniqueNameFirstFree used g.name
    obtain ⟨nodup, apart⟩ := ih (uniqueName used g.name :: used)
    simp only [entries, List.map_cons]
    refine ⟨List.nodup_cons.mpr ⟨fun mem => apart _ mem List.mem_cons_self, nodup⟩, fun n mem => ?_⟩
    rcases List.mem_cons.mp mem with rfl | mem
    · rw [named]
      exact fresh
    · exact fun old => apart n mem (List.mem_cons_of_mem _ old)

theorem entriesNamed (used : List String) (gs : List FunctionHits) :
    ∀ i e g, (entries used gs)[i]? = some e → gs[i]? = some g →
      ∃ k ≤ used.length + i, e.name = numbered (baseName g.name) k ∧
        e.name ∉ used ++ ((entries used gs).take i).map (·.name) ∧
        ∀ j < k, numbered (baseName g.name) j ∈ used ++ ((entries used gs).take i).map (·.name) := by
  induction gs generalizing used with
  | nil => intro i e g at_e; simp [entries] at at_e
  | cons g gs ih =>
    intro i e g' at_e at_g
    cases i with
    | zero =>
      simp only [entries, List.getElem?_cons_zero, Option.some.injEq] at at_e at_g
      subst at_e at_g
      obtain ⟨k, le, named, fresh, before⟩ := uniqueNameFirstFree used g.name
      refine ⟨k, le, named, ?_, fun j lt => ?_⟩
      · simpa [named] using fresh
      · simpa using before j lt
    | succ i =>
      simp only [entries, List.getElem?_cons_succ] at at_e at_g
      obtain ⟨k, le, named, fresh, before⟩ := ih _ i e g' at_e at_g
      -- the names before are the earlier entries with the head's name moved to the front
      have moved : ∀ x, x ∈ (uniqueName used g.name :: used) ++
          ((entries (uniqueName used g.name :: used) gs).take i).map (·.name) ↔
          x ∈ used ++ ((entries used (g :: gs)).take (i + 1)).map (·.name) := by
        intro x
        simp only [entries, List.take_succ_cons, List.map_cons, List.mem_append, List.mem_cons]
        tauto
      refine ⟨k, by simp only [List.length_cons] at le; omega, named, fun mem => fresh ((moved _).mpr mem),
        fun j lt => (moved _).mp (before j lt)⟩

theorem foldFunctions (gs : List FunctionHits) (text : String) (used : List String) :
    gs.foldl (fun (acc : String × List String) g =>
      let n := uniqueName acc.2 g.name
      (acc.1 ++ "FN:" ++ toString g.firstLine ++ "," ++ n ++ "\nFNDA:" ++ flag g.hit ++ "," ++
        n ++ "\n", n :: acc.2)) (text, used) =
      (text ++ String.join ((entries used gs).map Lcov.Entry.text),
        ((entries used gs).map (·.name)).reverse ++ used) := by
  induction gs generalizing text used with
  | nil => simp [entries]
  | cons g gs ih =>
    rw [List.foldl_cons]
    dsimp only
    rw [ih]
    simp [entries, Lcov.Entry.text, Lcov.hitText, flag, String.append_assoc]

def recordOf (test name : String) (f : FileHits) : Lcov.Record where
  test := test
  file := name
  functions := entries [] (f.functions.toList.mergeSort functionOrder)
  found := (f.functions.toList.mergeSort functionOrder).length
  hitCount := ((f.functions.toList.mergeSort functionOrder).filter (·.hit)).length
  lines := f.lines.toList.mergeSort fun a b => a.1 ≤ b.1

theorem fileRecordText (test name : String) (f : FileHits) :
    fileRecord test name f = (recordOf test name f).text := by
  unfold fileRecord
  dsimp only
  rw [foldFunctions]
  -- the sort and line formatting agree with `functionOrder` and `lineText` by definition
  dsimp only [recordOf, Lcov.Record.text]
  rw [String.empty_append]
  rfl

theorem reportRecords (cov : Coverage) (test : String) :
    cov.report test = String.join (((cov.files.toList.mergeSort fun a b => a.1 ≤ b.1).map
      fun x => recordOf test x.1 x.2).map Lcov.Record.text) := by
  unfold report
  dsimp only
  rw [List.map_map]
  exact congrArg String.join (List.map_congr_left fun x _ => fileRecordText test x.1 x.2)

/-- The report is well formed lcov: one record per recorded file, in strictly ascending order
of file name. Each record names the test and the file; gives one `FN`/`FNDA` pair per function
entry of the file, the entries ordered by name and first line, under pairwise distinct names,
each the first of the function's name (`anon` if it has none), then that name with `_1`, `_2`,
... appended, that the record has not used yet, found within as many tries as there are names
before it; then `FNF` with the number of functions and `FNH` with the number of them that
ran, which are the `FNDA:1` pairs; then one `DA` line per recorded line with its hit flag, in
strictly ascending order of line; and `end_of_record`. -/
theorem reportWellFormed (cov : Coverage) (recorded : Recorded cov) (test : String) :
    ∃ records : List Lcov.Record, cov.report test = String.join (records.map Lcov.Record.text) ∧
      (records.map (·.file)).Pairwise (· < ·) ∧
      (records.map (·.file)).Perm (cov.files.toList.map (·.1)) ∧
      ∀ r ∈ records, r.test = test ∧
        (∃ fs : List FunctionHits, fs.Perm (cov.file r.file).functions.toList ∧
          fs.Pairwise (fun a b => a.name < b.name ∨ a.name = b.name ∧ a.firstLine ≤ b.firstLine) ∧
          r.functions.map (fun e => (e.line, e.hit)) = fs.map (fun g => (g.firstLine, g.hit)) ∧
          ∀ i e g, r.functions[i]? = some e → fs[i]? = some g →
            ∃ k ≤ i, e.name = numbered (baseName g.name) k ∧
              e.name ∉ (r.functions.take i).map (·.name) ∧
              ∀ j < k, numbered (baseName g.name) j ∈ (r.functions.take i).map (·.name)) ∧
        (r.functions.map (·.name)).Nodup ∧
        r.found = r.functions.length ∧
        r.hitCount = (r.functions.filter (·.hit)).length ∧
        (r.lines.map (·.1)).Pairwise (· < ·) ∧ r.lines.Perm (cov.file r.file).lines.toList := by
  have keyed := recorded.keyed
  have files : ((cov.files.toList.mergeSort fun a b => a.1 ≤ b.1).map fun x => recordOf test x.1 x.2).map
      (·.file) = (cov.files.toList.mergeSort fun a b => a.1 ≤ b.1).map (·.1) := by
    rw [List.map_map]
    rfl
  refine ⟨_, reportRecords cov test, ?_, ?_, fun r mem => ?_⟩
  · -- sorted by name, and each name once
    rw [files]
    have sorted : (cov.files.toList.mergeSort fun a b => a.1 ≤ b.1).Pairwise fun a b => decide (a.1 ≤ b.1) :=
      List.pairwise_mergeSort (fun _ _ _ ab bc => by simpa using le_trans (by simpa using ab) (by simpa using bc))
        (fun a b => by simpa using le_total a.1 b.1) cov.files.toList
    have once := ((List.mergeSort_perm cov.files.toList fun a b => a.1 ≤ b.1).map (·.1)).nodup_iff.mpr keyed.files
    refine List.pairwise_map.mpr ((sorted.and (List.pairwise_map.mp once)).imp fun ⟨le, ne⟩ => ?_)
    exact lt_of_le_of_ne (by simpa using le) ne
  · rw [files]
    exact (List.mergeSort_perm _ _).map _
  · obtain ⟨⟨name, f⟩, sortedMem, rfl⟩ := List.mem_map.mp mem
    have recordedFile : (name, f) ∈ cov.files :=
      Array.mem_toList_iff.mp ((List.mergeSort_perm _ _).mem_iff.mp sortedMem)
    dsimp only [recordOf]
    rw [keyed.fileOf recordedFile]
    have fresh := entriesFresh [] (f.functions.toList.mergeSort functionOrder)
    refine ⟨rfl, ⟨_, List.mergeSort_perm _ _, ?_, entriesLineHit [] _, fun i e g at_e at_g => ?_⟩,
      fresh.1, ?_, ?_, ?_, List.mergeSort_perm _ _⟩
    · exact (List.pairwise_mergeSort functionOrderTrans functionOrderTotal _).imp functionOrderIff.mp
    · simpa using entriesNamed [] _ i e g at_e at_g
    · -- as many entries as functions
      simpa using (congrArg List.length (entriesLineHit [] (f.functions.toList.mergeSort functionOrder))).symm
    · -- as many entries ran as functions did
      have hits : (entries [] (f.functions.toList.mergeSort functionOrder)).map (·.hit) =
          (f.functions.toList.mergeSort functionOrder).map (·.hit) := by
        simpa [List.map_map, Function.comp_def] using
          congrArg (List.map Prod.snd) (entriesLineHit [] (f.functions.toList.mergeSort functionOrder))
      calc ((f.functions.toList.mergeSort functionOrder).filter (·.hit)).length
          = ((f.functions.toList.mergeSort functionOrder).map (·.hit)).countP id := by
            rw [List.countP_map, List.countP_eq_length_filter]
            rfl
        _ = ((entries [] (f.functions.toList.mergeSort functionOrder)).map (·.hit)).countP id := by rw [hits]
        _ = ((entries [] (f.functions.toList.mergeSort functionOrder)).filter (·.hit)).length := by
            rw [List.countP_map, List.countP_eq_length_filter]
            rfl
    · -- sorted by line, and each line once
      have sorted : (f.lines.toList.mergeSort fun a b => a.1 ≤ b.1).Pairwise fun a b => decide (a.1 ≤ b.1) :=
        List.pairwise_mergeSort (fun _ _ _ ab bc => by simpa using Nat.le_trans (by simpa using ab) (by simpa using bc))
          (fun a b => by simpa using Nat.le_total a.1 b.1) f.lines.toList
      have once := ((List.mergeSort_perm f.lines.toList fun a b => a.1 ≤ b.1).map (·.1)).nodup_iff.mpr
        (keyed.lines _ recordedFile)
      refine List.pairwise_map.mpr ((sorted.and (List.pairwise_map.mp once)).imp fun ⟨le, ne⟩ => ?_)
      exact Nat.lt_of_le_of_ne (by simpa using le) ne

/-- Two nameless units of one file, registered, and one of them seen running: the report is a
record per file, and its functions have names of their own. -/
theorem namelessUnitsReported :
    let units : Array Code := #[{ instrs := #[.nop], file := "a.q", lines := #[(0, 2)] },
      { instrs := #[.nop], file := "a.q", lines := #[(0, 1)] }]
    let codes : CodeId → Option Code := fun id => units[id.index]?
    let cov := ((({} : Coverage).add codes 2 ⟨0⟩).add codes 2 ⟨1⟩).observe codes 2 ⟨1⟩ 0
    cov.Recorded ∧ ∃ records : List Lcov.Record,
      cov.report "t" = String.join (records.map Lcov.Record.text) ∧
      (records.map (·.file)).Perm (cov.files.toList.map (·.1)) ∧
      ∀ r ∈ records, (r.functions.map (·.name)).Nodup := by
  intro units codes cov
  have recorded : cov.Recorded := .observe _ _ _ _ (.add _ _ _ (.add _ _ _ .empty))
  obtain ⟨records, text, -, perm, each⟩ := reportWellFormed cov recorded "t"
  exact ⟨recorded, records, text, perm, fun r mem => (each r mem).2.2.1⟩

end Coverage

end ScriptEngine
