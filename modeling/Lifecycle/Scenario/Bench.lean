import Lifecycle.Scenario.Report
import Lifecycle.Threads.Machine
/-!
# A bench for scenarios without threads

Steps on a kernel, one after the other, by a single caller. A step may fail and end the scenario;
what has happened until then stays. A wait that would block ends it too, as nobody else is there to
wake the caller.
-/

namespace Lifecycle

namespace Scenario

/-- A kernel on which some children of the adopter, without any memory, have been created and run.
There must be room for all of them. -/
def crowd (k : Kernel) : Nat → Except Fault Kernel
  | 0 => .ok k
  | n + 1 => do
    let made := k.create k.table.adopter []
    let p ← made.result
    let started := made.kernel.transition p .running
    started.result
    crowd started.kernel n

/-- The kernel under test, its journal, and what the scenario itself keeps. -/
structure Bench (σ : Type) where
  kernel : Kernel
  journal : Journal
  own : σ

/-- A part of a scenario. -/
abbrev Play (σ α : Type) := ExceptT Failure (StateM (Bench σ)) α

namespace Play

variable {σ α : Type}

/-- Makes a step and yields its result, whatever it is. -/
def attempt (step : Kernel → Outcome α) : Play σ (Except Fault α) := do
  let bench ← get
  let o := step bench.kernel
  set { bench with kernel := o.kernel, journal := bench.journal.tell .main o.events }
  return o.result

/-- Makes a step that must succeed. -/
def need (step : Kernel → Outcome α) : Play σ α := do
  match ← attempt step with
  | .ok a => return a
  | .error fault => throw (.fault fault)

def tell (event : Event) : Play σ Unit :=
  modify fun bench => { bench with journal := bench.journal.tell .main [event] }

def table : Play σ Table := return (← get).kernel.table

/-- The table must break no rule. -/
def verify : Play σ Unit := do
  match (← table).audit with
  | some violation => throw (.breached violation)
  | none => return

/-- Waits for a child that can be collected at once. -/
def collect (parent : Pid) (target : Target) : Play σ (Except Fault (Pid × ExitCode)) := do
  match ← attempt (·.wait parent target) with
  | .ok (.collected p code) => return .ok (p, code)
  | .ok (.asleep _) => throw .stalled
  | .error fault => return .error fault

/-- The adopter collects until it has no child, within the given number of waits. -/
def collectAll : Nat → List (Pid × ExitCode) → Play σ (List (Pid × ExitCode))
  | 0, _ => throw .stalled
  | waits + 1, reaped => do
    match ← collect (← table).adopter .any with
    | .ok (p, code) =>
      tell (.released p code)
      collectAll waits (reaped ++ [(p, code)])
    | .error (.refused .noChildren) => return reaped
    | .error fault => throw (.fault fault)

/-- The adopter collects all there is; nobody else may be left. -/
def settle : Play σ Unit := do
  let reaped ← collectAll (← table).capacity []
  match Machine.conclude (← get).kernel reaped with
  | .ok _ => return
  | .error failure => throw failure

/-- Plays a scenario on a kernel. -/
def result (play : Play σ α) (k : Kernel) (journal : Journal) (own : σ) : Result α :=
  let played := play.run.run ⟨k, journal, own⟩
  ⟨played.1, played.2.kernel, played.2.journal⟩

end Play

end Scenario

end Lifecycle
