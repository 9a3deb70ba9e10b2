import Lifecycle.Random.Dice
import Lifecycle.Scenario.Bench
/-!
# Random operations

Rounds in which a random running process creates, ends, collects or kills, each followed by an audit
of the table. A process that has been killed does nothing but end. At last every running process
ends and the adopter collects them all.
-/

namespace Lifecycle

namespace Scenario

namespace Stress

open Play

/-- The dice and the count of what happened. -/
structure Own (γ : Type) where
  dice : γ
  tally : StressReport

variable {γ : Type}

def count (f : StressReport → StressReport) : Play (Own γ) Unit :=
  modify fun bench => { bench with own := { bench.own with tally := f bench.own.tally } }

/-- A throw of the dice. -/
def throwDice {α : Type} (toss : γ → α × γ) : Play (Own γ) α := do
  let bench ← get
  let (a, dice) := toss bench.own.dice
  set { bench with own := { bench.own with dice := dice } }
  return a

/-- A child by forking or by creation, as a coin decides. -/
def procreate (dice : Dice γ) (actor : Pid) : Play (Own γ) Unit := do
  let made ← if ← throwDice dice.flip then attempt (·.fork actor)
    else attempt (·.create actor defaultImage)
  match made with
  | .ok p =>
    need (·.transition p .running)
    count fun t => { t with created := t.created + 1 }
  | .error (.refused .tableFull) => count fun t => { t with exhausted := t.exhausted + 1 }
  | .error fault => throw (.fault fault)

def finish (actor : Pid) (code : ExitCode) : Play (Own γ) Unit := do
  need (·.exit actor code)
  count fun t => { t with exited := t.exited + 1 }

/-- Collects a child if there is one to collect. -/
def collectAny (actor : Pid) : Play (Own γ) Unit := do
  match ← attempt (·.tryWait actor .any) with
  | .ok (some _) => count fun t => { t with reaped := t.reaped + 1 }
  | .ok none | .error (.refused .noChildren) => return
  | .error fault => throw (.fault fault)

/-- What a process does on a throw from 0 to 9. -/
def operate (dice : Dice γ) (adopter actor : Pid) (op : Nat) : Play (Own γ) Unit := do
  if op < 4 then procreate dice actor
  else if op < 6 then
    if actor ≠ adopter then
      let n ← throwDice (dice.below 256)
      finish actor (Int32.ofInt ((n : Int) - 128))
  else if op < 9 then collectAny actor
  else if actor ≠ adopter then
    need (·.kill actor)
    count fun t => { t with killed := t.killed + 1 }

/-- The processes that are running, in slot order. -/
def running (t : Table) : List Pid :=
  (t.profiles.filter (·.status = .running)).map (·.pid)

def round (dice : Dice γ) (number : Nat) : Play (Own γ) Unit := do
  let t ← table
  let actors := running t
  if actors.isEmpty then throw (.scenario .adopterIdle)
  let actor := actors.getD (← throwDice (dice.below actors.length)) t.adopter
  let op ← throwDice (dice.below 10)
  tell (.round number actor op)
  if ((t.profile? actor).map (·.killed)).getD false then finish actor (-1)
  else operate dice t.adopter actor op
  verify
  let live := (← table).liveCount
  count fun t => { t with maxLive := max t.maxLive live }

/-- Some rounds, numbered from the given number on. -/
def rounds (dice : Dice γ) : Nat → Nat → Play (Own γ) Unit
  | _, 0 => return
  | number, left + 1 => do
    round dice number
    rounds dice (number + 1) left

/-- The adopter collects until it has no child, within the given number of attempts. -/
def collectRest (adopter : Pid) : Nat → Play (Own γ) Unit
  | 0 => throw .stalled
  | tries + 1 => do
    match ← attempt (·.tryWait adopter .any) with
    | .ok (some _) =>
      count fun t => { t with reaped := t.reaped + 1 }
      collectRest adopter tries
    | .ok none => throw (.lost ((← table).liveCount - 1))
    | .error (.refused .noChildren) => return
    | .error fault => throw (.fault fault)

def play (dice : Dice γ) (number : Nat) : Play (Own γ) StressReport := do
  rounds dice 0 number
  let t ← table
  ((running t).filter (· ≠ t.adopter)).forM fun p => finish p 0
  collectRest t.adopter t.capacity
  verify
  let tally := (← get).own.tally
  if (← table).liveCount ≠ 1 ∨ tally.reaped ≠ tally.created then
    throw (.lost (tally.created - tally.reaped))
  tell (.reported ("stress finished: " ++ tally.text))
  return tally

end Stress

/-- Some rounds of random operations with dice of a given seed. -/
def stress {γ : Type} (dice : Dice γ) (rounds : Nat) (seed : UInt64) (k : Kernel)
    (journal : Journal) : Result StressReport :=
  (Stress.play dice rounds).result k journal ⟨dice.start seed, ⟨0, 0, 0, 0, 0, 0⟩⟩

end Scenario

end Lifecycle
