import Lifecycle.Threads.Machine
/-!
# Scripts

Process bodies written as lists of steps, and a main thread that starts them. Every step that has a
result notes it under the path of its process: the children of a process are numbered in the order
in which it tried to create them, those of the main thread too, and a path lists these numbers from
the top.
-/

namespace Lifecycle

namespace Script

/-- A step of a process. -/
inductive Step where
  | exit (code : ExitCode)
  | crash
  | fork (body : List Step)
  | wait
  | waitFor (pid : Pid)
  | tryWait
  | yield
  | nap
  | self
  | parent
  | kill (pid : Pid)
  | exitOf (pid : Pid) (code : ExitCode)
  | pages
  | memory
  | exec (image : Bytes)
  /-- Looks until a process has a status, or is not there. -/
  | untilStatus (pid : Pid) (status : Option Status)
  /-- Looks until a process has a parent, or none. -/
  | untilParent (pid : Pid) (parent : Option Pid)

/-- A step of the main thread. -/
inductive MainStep where
  | spawn (parent : Pid) (body : List Step)
  | kill (pid : Pid)
  | exitOf (pid : Pid) (code : ExitCode)
  | profiles
  | untilStatus (pid : Pid) (status : Option Status)
  | untilParent (pid : Pid) (parent : Option Pid)

/-- What a step yielded and whose step it was. -/
structure Note where
  path : List Nat
  reply : Reply

/-- A process on its way through its script. -/
structure Body where
  path : List Nat
  forks : Nat
  todo : List Step

/-- The main thread on its way through its script. -/
structure Director where
  spawns : Nat
  todo : List MainStep

/-- Whether a look found what it was looking for. -/
def found (status : Option Status) (parent : Option Pid) : Reply → Bool
  | .ok (.status s) => s = status
  | .ok (.parent p) => p = parent
  | _ => false

/-- A wait for one child yields only its code. -/
def codeOnly : Reply → Reply
  | .ok (.collected (some (_, code))) => .ok (.code code)
  | reply => reply

namespace Body

def move (p : Pid) (b : Body) : Move Body :=
  match b.todo with
  | [] => .finish 0
  | step :: _ =>
    match step with
    | .exit code => .finish code
    | .crash => .crash
    | .fork body => .ask (.fork ⟨b.path ++ [b.forks], 0, body⟩)
    | .wait => .ask (.wait .any)
    | .waitFor q => .ask (.wait (.only q))
    | .tryWait => .ask (.call (.tryWait p .any))
    | .yield => .ask .yield
    | .nap => .ask .nap
    | .self => .ask .self
    | .parent => .ask (.call (.parent p))
    | .kill q => .ask (.call (.kill q))
    | .exitOf q code => .ask (.call (.exit q code))
    | .pages => .ask (.call (.pages p))
    | .memory => .ask (.call (.memory p))
    | .exec image => .ask (.call (.exec p image))
    | .untilStatus q _ => .ask (.call (.status q))
    | .untilParent q _ => .ask (.call (.parent q))

/-- Goes on to the next step and notes what this one yielded. -/
def note (b : Body) (reply : Reply) : Body × List Note :=
  ({ b with todo := b.todo.tail }, [⟨b.path, reply⟩])

def hear (_ : Pid) (b : Body) (reply : Reply) : Body × List Note :=
  match b.todo with
  | .fork _ :: _ => { b with forks := b.forks + 1 }.note reply
  | .waitFor _ :: _ => b.note (codeOnly reply)
  | .untilStatus _ status :: _ => if found status none reply then b.note (.ok .done) else (b, [])
  | .untilParent _ parent :: _ => if found none parent reply then b.note (.ok .done) else (b, [])
  | _ => b.note reply

end Body

namespace Director

def lead (d : Director) : Lead Body :=
  match d.todo with
  | [] => .finish
  | .spawn parent body :: _ => .spawn parent ⟨[d.spawns], 0, body⟩
  | .kill p :: _ => .call (.kill p)
  | .exitOf p code :: _ => .call (.exit p code)
  | .profiles :: _ => .call .profiles
  | .untilStatus p _ :: _ => .call (.status p)
  | .untilParent p _ :: _ => .call (.parent p)

/-- Goes on to the next step and notes what this one yielded. -/
def note (d : Director) (reply : Reply) : Director × List Note :=
  ({ d with todo := d.todo.tail }, [⟨[], reply⟩])

def heed (d : Director) (reply : Reply) : Director × List Note :=
  match d.todo with
  | .spawn .. :: _ => { d with spawns := d.spawns + 1 }.note reply
  | .untilStatus _ status :: _ => if found status none reply then d.note (.ok .done) else (d, [])
  | .untilParent _ parent :: _ => if found none parent reply then d.note (.ok .done) else (d, [])
  | _ => d.note reply

end Director

def program : Program Body Director Note where
  move := Body.move
  hear := Body.hear
  lead := Director.lead
  heed := Director.heed

/-- Runs a script to its end. -/
def run (k : Kernel) (steps : List MainStep) : Machine Body Director Note :=
  (Machine.start k ⟨0, steps⟩ #[]).run program Machine.patience

end Script

end Lifecycle
