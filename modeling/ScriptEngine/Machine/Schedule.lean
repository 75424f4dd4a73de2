import ScriptEngine.Machine.Run
/-!
The process list and group scheduling. Processes are kept in priority order, a new process
going after all others of the same or lower priority. Processes are gathered into numbered
groups; within a group the members run one at a time in list order, and the group moves to
its next runnable member only when the running one suspends, stops or finishes; when none
is left the group is reported finished. Removing finished processes reports the objects
they acted for and releases what they held.
-/
namespace ScriptEngine

/-- The position before which a new element goes: the search for the first element not
satisfying `before`, by halving, as it runs on an ordered list (on an unordered list it
still gives one definite position). -/
def insertPosition {α : Type} (xs : Array α) (before : α → Bool) : Nat :=
  if xs.size == 0 then 0
  else
    let rec go (base size : Nat) : Nat → Nat
      | 0 => base
      | fuel + 1 =>
        if size ≤ 1 then base
        else
          let half := size / 2
          let mid := base + half
          let base := if xs[mid]?.any before then mid else base
          go base (size - half) fuel
    let base := go 0 xs.size xs.size
    if xs[base]?.any before then base + 1 else base

namespace Machine

/-- A new process with the configured priority and limits, and the identity `nextPid`; the
process itself, whose `processId` the host is given. -/
def create (m : Machine) (name : String) : Machine × Process :=
  let p : Process :=
    { id := m.nextPid
      name := name
      priority := m.config.defaultPriority
      limits := m.config.limits }
  let i := insertPosition m.procs fun q => q.priority ≤ p.priority
  ({ m with procs := m.procs.insertIdxIfInBounds i p, nextPid := m.nextPid + 1 }, p)

/-- A fresh group number; the count is kept in 32 bits and wraps past `2^32 - 1`. -/
def allocateGroup (m : Machine) : Machine × Nat :=
  ({ m with nextGroup := (m.nextGroup + 1) % 4294967296 }, m.nextGroup)

/-- Sets the group's first runnable member running, or reports the group finished. -/
def startGroup (m : Machine) (g : Nat) : Machine :=
  if g == 0 then m
  else match m.procs.find? fun p => p.group == g && p.status == .runnable with
    | some p => m.setProc { p with status := .running }
    | none => m.emit (.groupFinished g)

/-- Runs running processes, first in list order, until none is running. -/
def runList (m : Machine) : Machine :=
  go m (m.procs.size + 1)
where
  go (m : Machine) : Nat → Machine
    | 0 => m
    | fuel + 1 =>
      if m.exhausted then m
      else match m.procs.find? (·.status == .running) with
        | none => m
        | some p =>
          let m := m.run p.id
          if m.exhausted then m
          else match m.proc? p.id with
            | none => go m fuel
            | some q =>
              match q.status with
              | .waiting => go m fuel
              | .runnable | .running =>
                go ((m.failWith q.id "Process returned while still active").settle.startGroup q.group) fuel
              | _ => go (m.startGroup q.group) fuel

/-- Moves a process, and every member of its group, to group `g`; refused for suspended
and frozen processes. -/
def join (m : Machine) (pid g : Nat) : Machine × Bool :=
  match m.proc? pid with
  | none => (m, false)
  | some p =>
    if p.status == .suspended || p.status == .frozen then (m, false)
    else
      let old := p.group
      ({ m with procs := m.procs.map fun q =>
          if q.id == pid || (old != 0 && q.group == old) then { q with group := g } else q }, true)

/-- A suspended or runnable process becomes runnable in group `g`. -/
def resume (m : Machine) (pid g : Nat) : Machine × Bool :=
  match m.proc? pid with
  | some p =>
    if p.status == .suspended || p.status == .runnable then
      (m.setProc { p with status := .runnable, group := g }, true)
    else (m, false)
  | none => (m, false)

/-- Every suspended process, and every runnable one without a group, becomes runnable in
group `g`; the count. -/
def resumeSuspended (m : Machine) (g : Nat) : Machine × Nat :=
  let eligible := fun (p : Process) => p.status == .suspended || (p.status == .runnable && p.group == 0)
  ({ m with procs := m.procs.map fun p =>
      if eligible p then { p with status := .runnable, group := g } else p },
    (m.procs.filter eligible).size)

/-- A waiting process runs on. -/
def continueProcess (m : Machine) (pid : Nat) : Machine × Bool :=
  match m.proc? pid with
  | some p => if p.status == .waiting then (m.setProc { p with status := .running }, true) else (m, false)
  | none => (m, false)

/-- A waiting process runs on, with a failure to raise first. -/
def continueWithFailure (m : Machine) (pid : Nat) (message : String) : Machine × Bool :=
  match m.proc? pid with
  | some p =>
    if p.status == .waiting then
      (m.setProc { p with status := .running, pending := some (.userError message) }, true)
    else (m, false)
  | none => (m, false)

/-- Ends a process as terminated; if it was running or waiting its group moves on. -/
def terminate (m : Machine) (pid : Nat) : Machine × Bool :=
  match m.proc? pid with
  | none => (m, false)
  | some p =>
    let m := (m.finish pid .terminated).settle
    if p.status == .running || p.status == .waiting then (m.startGroup p.group, true) else (m, true)

/-- Moves a process whose priority changed to its place: back past higher priorities, then
forward past lower ones. -/
def handlePriorityChange (m : Machine) (pid : Nat) : Machine :=
  match m.procIndex? pid with
  | none => m
  | some i =>
    let prio := ((m.procs[i]?).map (·.priority)).getD 0
    let rec back (ps : Array Process) (i : Nat) : Nat → Array Process × Nat
      | 0 => (ps, i)
      | fuel + 1 =>
        if i > 0 && ((ps[i - 1]?).map (·.priority)).getD prio > prio then
          back (ps.swapIfInBounds (i - 1) i) (i - 1) fuel
        else (ps, i)
    let rec forward (ps : Array Process) (i : Nat) : Nat → Array Process
      | 0 => ps
      | fuel + 1 =>
        if i + 1 < ps.size && ((ps[i + 1]?).map (·.priority)).getD prio < prio then
          forward (ps.swapIfInBounds i (i + 1)) (i + 1) fuel
        else ps
    let (ps, i) := back m.procs i m.procs.size
    { m with procs := forward ps i ps.size }

def setPriority (m : Machine) (pid : Nat) (prio : Int) : Machine × Bool :=
  match m.proc? pid with
  | some p => ((m.setProc { p with priority := prio }).handlePriorityChange pid, true)
  | none => (m, false)

/-- Removes the finished processes, reporting the object each acted for; locks they own lose
their owner and what they held is released. The count. -/
def removeTerminated (m : Machine) : Machine × Nat :=
  let gone := m.procs.filter (·.status.isTerminal)
  let m := gone.foldl (fun m p => match m.invokingObject p with
    | some o => m.emit (.objectChanged o)
    | none => m) m
  let m := { m with procs := m.procs.filter fun p => !p.status.isTerminal }
  let m := gone.foldl (fun m p => { m with locks := m.locks.disown p.id }) m
  (m.settle, gone.size)

def running (m : Machine) : Option Nat := (m.procs.find? (·.status == .running)).map (·.id)

/-- The first live process of the given role acting for `object`. -/
def byObject (m : Machine) (object : Nat) (role : Role) : Option Nat :=
  (m.procs.find? fun p => p.role == role && !p.status.isTerminal &&
    m.invokingObject p == some object).map (·.id)

end Machine

end ScriptEngine
