import Lifecycle.Scenario.Report
import Lifecycle.Threads.Machine
/-!
# An orphan is adopted

A parent forks a child and ends at once. The child runs on until it sees the adopter as its parent,
and is collected there.
-/

namespace Lifecycle

namespace Scenario

namespace Orphan

def orphanCode : ExitCode := 42

/-- The states of the two bodies. -/
inductive Body where
  | forking
  /-- The child looks who its parent is. -/
  | looking
  /-- The child gives way before it looks again. -/
  | waiting
  /-- The child looks once more and tells. -/
  | telling
  | ending (code : ExitCode)
deriving DecidableEq

/-- The states of the main thread. -/
inductive Director where
  | starting
  | started
  | refused (why : Refusal)
deriving DecidableEq

inductive Note where
  | parent (pid : Pid)
  | orphan (pid : Pid) (parent : Option Pid)
deriving DecidableEq

def move (p : Pid) : Body → Move Body
  | .forking => .ask (.fork .looking)
  | .looking | .telling => .ask (.call (.parent p))
  | .waiting => .ask .yield
  | .ending code => .finish code

def hear (adopter p : Pid) (b : Body) (reply : Reply) : Body × List Note :=
  match b, reply with
  | .forking, .ok _ => (.ending 0, [])
  | .forking, .error _ => (.ending (-1), [])
  | .looking, .ok (.parent parent) => (if parent = some adopter then .telling else .waiting, [])
  | .waiting, .ok _ => (.looking, [])
  | .waiting, .error _ => (.ending (-1), [])
  | .telling, .ok (.parent parent) => (.ending orphanCode, [.orphan p parent])
  | b, _ => (b, [])

def lead (adopter : Pid) : Director → Lead Body
  | .starting => .spawn adopter .forking
  | .started => .finish
  | .refused why => .fail (.fault (.refused why))

def heed (d : Director) (reply : Reply) : Director × List Note :=
  match reply with
  | .ok (.pid p) => (.started, [.parent p])
  | .ok _ => (d, [])
  | .error why => (.refused why, [])

def program (adopter : Pid) : Program Body Director Note where
  move := move
  hear := hear adopter
  lead := lead adopter
  heed := heed

/-- The report on a run that has ended. -/
def report (m : Machine Body Director Note) : Except Failure OrphanReport :=
  match m.verdict with
  | .error failure => .error failure
  | .ok reaped =>
    let parent := m.notes.toList.findSome? fun
      | .parent p => some p
      | .orphan .. => none
    let orphan := m.notes.toList.findSome? fun
      | .orphan p parent => some (p, parent)
      | .parent _ => none
    match parent, orphan with
    | some parent, some (orphan, adoptedBy) => .ok ⟨parent, orphan, adoptedBy, reaped⟩
    | _, _ => .error (.scenario .adoptionUnseen)

def machine (k : Kernel) (journal : Journal) : Machine Body Director Note :=
  (Machine.start k .starting journal).run (program k.table.adopter) Machine.patience

end Orphan

def orphan (k : Kernel) (journal : Journal) : Result OrphanReport :=
  let m := Orphan.machine k journal
  ⟨Orphan.report m, m.kernel, m.journal⟩

end Scenario

end Lifecycle
