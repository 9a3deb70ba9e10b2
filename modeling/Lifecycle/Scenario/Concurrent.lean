import Lifecycle.Random.Dice
import Lifecycle.Scenario.Report
import Lifecycle.Threads.Machine
/-!
# Random process trees

Trees of processes are drawn from dice before they are run. Each process forks its children and
then, as a coin has decided, collects them or ends at once and leaves them to the adopter. All trees
run at the same time.
-/

namespace Lifecycle

namespace Scenario

namespace Concurrent

/-- A process, its children, and whether it collects them. -/
inductive Tree where
  | node (children : List Tree) (collects : Bool)

namespace Tree

def children : Tree → List Tree
  | node children _ => children

def collects : Tree → Bool
  | node _ collects => collects

mutual

/-- How many processes a tree has. -/
def size : Tree → Nat
  | node children _ => sizes children + 1

/-- How many processes some trees have. -/
def sizes : List Tree → Nat
  | [] => 0
  | t :: rest => t.size + sizes rest

end

variable {γ : Type}

/-- Some seeds drawn in a row. -/
def seeds (dice : Dice γ) : Nat → γ → List UInt64 × γ
  | 0, g => ([], g)
  | n + 1, g =>
    let (seed, g) := dice.seed g
    let (rest, g) := seeds dice n g
    (seed :: rest, g)

/-- The tree that grows from a seed, with so many generations below its root at most. -/
def grow (dice : Dice γ) : Nat → UInt64 → Tree
  | 0, seed => node [] (dice.flip (dice.start seed)).1
  | generations + 1, seed =>
    let (count, g) := dice.below 3 (dice.start seed)
    let (drawn, g) := seeds dice count g
    node (drawn.map (grow dice generations)) (dice.flip g).1

/-- The trees of some workers. -/
def forest (dice : Dice γ) (workers : Nat) (seed : UInt64) : List Tree :=
  (seeds dice workers (dice.start seed)).1.map (grow dice 3)

end Tree

/-- A process on its way through its tree. -/
inductive Body where
  /-- Children still to fork, and whether they are collected then. -/
  | growing (depth : Nat) (children : List Tree) (collects : Bool)
  | failed

/-- The main thread on its way through the trees. -/
inductive Director where
  | planting (trees : List Tree)
  | refused (why : Refusal)

inductive Note where
  | spawned
  | exhausted
  /-- A process collected a child. -/
  | collected
deriving DecidableEq

def move (_ : Pid) : Body → Move Body
  | .growing depth (child :: _) _ =>
    .ask (.fork (.growing (depth + 1) child.children child.collects))
  | .growing _ [] true => .ask (.wait .any)
  | .growing depth [] false => .finish (Int32.ofNat depth)
  | .failed => .finish (-1)

def hear (_ : Pid) (b : Body) (reply : Reply) : Body × List Note :=
  match b, reply with
  | .growing depth (_ :: rest) collects, .ok _ => (.growing depth rest collects, [.spawned])
  | .growing depth (_ :: rest) collects, .error .tableFull =>
    (.growing depth rest collects, [.exhausted])
  | .growing depth [] collects, .ok _ => (.growing depth [] collects, [.collected])
  | .growing depth [] _, .error .noChildren => (.growing depth [] false, [])
  | _, _ => (.failed, [])

def lead (adopter : Pid) : Director → Lead Body
  | .planting [] => .finish
  | .planting (t :: _) => .spawn adopter (.growing 0 t.children t.collects)
  | .refused why => .fail (.fault (.refused why))

def heed (d : Director) (reply : Reply) : Director × List Note :=
  match d, reply with
  | .planting (_ :: rest), .ok _ => (.planting rest, [.spawned])
  | .planting (_ :: rest), .error .tableFull => (.planting rest, [.exhausted])
  | .planting _, .error why => (.refused why, [])
  | d, _ => (d, [])

def program (adopter : Pid) : Program Body Director Note where
  move := move
  hear := hear
  lead := lead adopter
  heed := heed

/-- The report on a run that has ended. -/
def report (m : Machine Body Director Note) : Except Failure ConcurrentReport :=
  match m.verdict with
  | .error failure => .error failure
  | .ok reaped =>
    let count (note : Note) : Nat := m.notes.toList.count note
    let r : ConcurrentReport :=
      ⟨count .spawned, count .exhausted, count .collected, reaped.length⟩
    let collected := r.reapedByParents + r.reapedByInit
    if r.spawned ≠ collected then .error (.lost (r.spawned - collected)) else .ok r

def machine (trees : List Tree) (k : Kernel) (journal : Journal) : Machine Body Director Note :=
  (Machine.start k (.planting trees) journal).run (program k.table.adopter) Machine.patience

end Concurrent

/-- Some random trees at once, with dice of a given seed. -/
def concurrent {γ : Type} (dice : Dice γ) (workers : Nat) (seed : UInt64) (k : Kernel)
    (journal : Journal) : Result ConcurrentReport :=
  let m := Concurrent.machine (Concurrent.Tree.forest dice workers seed) k journal
  match Concurrent.report m with
  | .error failure => ⟨.error failure, m.kernel, m.journal⟩
  | .ok r =>
    ⟨.ok r, m.kernel, m.journal.tell .main [.reported ("concurrent finished: " ++ r.text)]⟩

end Scenario

end Lifecycle
