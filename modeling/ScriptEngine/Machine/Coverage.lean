import ScriptEngine.Code.Basic
/-!
Line and function coverage. Registering a unit registers it and, depth first in pool order,
every unit its code literals reach; units without a source file are searched but not
recorded. A recorded unit adds a function entry to its file and every line of its line map
as not hit; observing a process marks as hit the function of its innermost frame and the
line of the instruction about to run. The report has a record per file, in name order, with
the functions ordered by name and first line (nameless ones called `anon`, repeated names
numbered `_1`, `_2`, ...) and the lines ascending.
-/
namespace ScriptEngine

structure FunctionHits where
  name : String
  firstLine : Nat
  hit : Bool
  deriving DecidableEq, Repr

structure FileHits where
  /-- Lines with their hit flags, each line once. -/
  lines : Array (Nat × Bool) := #[]
  functions : Array FunctionHits := #[]
  deriving DecidableEq, Repr

structure Coverage where
  /-- Files in the order they were first seen. -/
  files : Array (String × FileHits) := #[]
  /-- Registered units with where their hits go: a file and a function index, or nothing
  for units without a file. -/
  seen : Array (CodeId × Option (String × Nat)) := #[]
  deriving DecidableEq, Repr

namespace FileHits

/-- Adds a line as not hit unless it is there. -/
def addLine (f : FileHits) (line : Nat) : FileHits :=
  if f.lines.any (·.1 == line) then f else { f with lines := f.lines.push (line, false) }

/-- Marks a line as hit, adding it if needed. -/
def hitLine (f : FileHits) (line : Nat) : FileHits :=
  if f.lines.any (·.1 == line) then
    { f with lines := f.lines.map fun (l, h) => if l == line then (l, true) else (l, h) }
  else { f with lines := f.lines.push (line, true) }

end FileHits

namespace Coverage

def isRegistered (cov : Coverage) (c : CodeId) : Bool := cov.seen.any (·.1 == c)

def registered (cov : Coverage) : Nat := cov.seen.size

def slot? (cov : Coverage) (c : CodeId) : Option (String × Nat) :=
  (cov.seen.find? (·.1 == c)).bind (·.2)

def file (cov : Coverage) (name : String) : FileHits :=
  ((cov.files.find? (·.1 == name)).map (·.2)).getD {}

def setFile (cov : Coverage) (name : String) (f : FileHits) : Coverage :=
  if cov.files.any (·.1 == name) then
    { cov with files := cov.files.map fun (n, g) => if n == name then (n, f) else (n, g) }
  else { cov with files := cov.files.push (name, f) }

/-- Records one unit, without its literals. -/
def record (cov : Coverage) (id : CodeId) (c : Code) : Coverage :=
  if c.file.isEmpty then { cov with seen := cov.seen.push (id, none) }
  else
    let f := c.lines.foldl (fun f (_, l) => f.addLine l) (cov.file c.file)
    let f := { f with functions := f.functions.push ⟨c.name, c.firstLine?.getD 0, false⟩ }
    let cov := cov.setFile c.file f
    { cov with seen := cov.seen.push (id, some (c.file, f.functions.size - 1)) }

def codeLiterals (c : Code) : List CodeId :=
  c.literals.toList.filterMap fun
    | .code id => some id
    | _ => none

/-- Registers `id` and what its literals reach, depth first; `fuel` bounds the depth by
the number of units. -/
def addFrom (codes : CodeId → Option Code) : Nat → Coverage → CodeId → Coverage
  | 0, cov, _ => cov
  | fuel + 1, cov, id =>
    if cov.isRegistered id then cov
    else match codes id with
      | none => cov
      | some c =>
        (codeLiterals c).foldl (addFrom codes fuel) (cov.record id c)

def add (codes : CodeId → Option Code) (count : Nat) (cov : Coverage) (id : CodeId) : Coverage :=
  addFrom codes (count + 1) cov id

/-- Observes a frame about to run instruction `pc` of unit `id`. -/
def observe (codes : CodeId → Option Code) (count : Nat) (cov : Coverage) (id : CodeId)
    (pc : Nat) : Coverage :=
  let cov := if cov.isRegistered id then cov else cov.add codes count id
  match cov.slot? id with
  | none => cov
  | some (name, index) =>
    let f := cov.file name
    let f := { f with functions := f.functions.modify index fun g => { g with hit := true } }
    let f := match codes id with
      | some c => if pc < c.size then (match c.lineFor? pc with
          | some l => f.hitLine l
          | none => f) else f
      | none => f
    cov.setFile name f

/-- The first name of `base` (or `anon`) not in `used`, trying the plain name and then
suffixes `_1`, `_2`, ... -/
def uniqueName (used : List String) (name : String) : String :=
  let base := if name.isEmpty then "anon" else name
  let candidates := base :: (List.range (used.length + 1)).map fun i => base ++ "_" ++ toString (i + 1)
  (candidates.find? (fun c => !used.contains c)).getD base

def flag (b : Bool) : String := if b then "1" else "0"

def fileRecord (test name : String) (f : FileHits) : String :=
  let fns := f.functions.toList.mergeSort fun a b =>
    a.name < b.name || (a.name == b.name && a.firstLine ≤ b.firstLine)
  let (fnText, _) := fns.foldl (fun (acc : String × List String) g =>
    let n := uniqueName acc.2 g.name
    (acc.1 ++ "FN:" ++ toString g.firstLine ++ "," ++ n ++ "\nFNDA:" ++ flag g.hit ++ "," ++
      n ++ "\n", n :: acc.2)) ("", [])
  let lines := f.lines.toList.mergeSort fun a b => a.1 ≤ b.1
  "TN:" ++ test ++ "\nSF:" ++ name ++ "\n" ++ fnText ++
    "FNF:" ++ toString fns.length ++ "\nFNH:" ++ toString (fns.filter (·.hit)).length ++ "\n" ++
    String.join (lines.map fun (l, h) => "DA:" ++ toString l ++ "," ++ flag h ++ "\n") ++
    "end_of_record\n"

/-- The report in lcov form. -/
def report (cov : Coverage) (test : String) : String :=
  let files := cov.files.toList.mergeSort fun a b => a.1 ≤ b.1
  String.join (files.map fun (n, f) => fileRecord test n f)

end Coverage

end ScriptEngine
