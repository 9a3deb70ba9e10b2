import Lifecycle.Scenario.Report
import Lifecycle.Threads.Machine
/-!
# A zombie is handed over

A parent forks a child and ends without collecting it, but not before the child has ended. The
zombie must go to the adopter and be collected there.
-/

namespace Lifecycle

namespace Scenario

namespace Zombie

/-- The states of the two bodies. -/
inductive Body where
  | child
  | forking
  /-- The parent looks whether the child has ended. -/
  | looking (child : Pid)
  /-- The parent naps before it looks again. -/
  | waiting (child : Pid)
  | ending (code : ExitCode)
deriving DecidableEq

/-- The states of the main thread. -/
inductive Director where
  | starting
  | started
  | refused (why : Refusal)
deriving DecidableEq

inductive Note where
  | parent (pid : Pid)
  | child (pid : Pid)
deriving DecidableEq

def move (_ : Pid) : Body → Move Body
  | .child => .finish 0
  | .forking => .ask (.fork .child)
  | .looking child => .ask (.call (.status child))
  | .waiting _ => .ask .nap
  | .ending code => .finish code

def hear (_ : Pid) (b : Body) (reply : Reply) : Body × List Note :=
  match b, reply with
  | .forking, .ok (.pid child) => (.looking child, [.child child])
  | .forking, _ => (.ending (-1), [])
  | .looking _, .ok (.status (some .zombie)) => (.ending 0, [])
  | .looking child, _ => (.waiting child, [])
  | .waiting child, .ok _ => (.looking child, [])
  | .waiting _, .error _ => (.ending (-1), [])
  | b, _ => (b, [])

def lead (adopter : Pid) : Director → Lead Body
  | .starting => .spawn adopter .forking
  | .started => .finish
  | .refused why => .fail (.fault (.refused why))

def heed (d : Director) (reply : Reply) : Director × List Note :=
  match reply with
  | .ok (.pid p) => (.started, [.parent p])
  | .ok _ => (d, [])
  | .error why => (.refused why, [])

def program (adopter : Pid) : Program Body Director Note where
  move := move
  hear := hear
  lead := lead adopter
  heed := heed

/-- The report on a run that has ended. -/
def report (m : Machine Body Director Note) : Except Failure ZombieReport :=
  match m.verdict with
  | .error failure => .error failure
  | .ok reaped =>
    let parent := m.notes.toList.findSome? fun
      | .parent p => some p
      | .child _ => none
    let child := m.notes.toList.findSome? fun
      | .child p => some p
      | .parent _ => none
    match parent, child with
    | some parent, some child => .ok ⟨parent, child, reaped⟩
    | _, _ => .error (.scenario .neverForked)

def machine (k : Kernel) (journal : Journal) : Machine Body Director Note :=
  (Machine.start k .starting journal).run (program k.table.adopter) Machine.patience

end Zombie

def zombie (k : Kernel) (journal : Journal) : Result ZombieReport :=
  let m := Zombie.machine k journal
  ⟨Zombie.report m, m.kernel, m.journal⟩

end Scenario

end Lifecycle
