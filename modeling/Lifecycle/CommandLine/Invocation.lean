import Lifecycle.CommandLine.Arguments
import Lifecycle.Random.ChaCha
import Lifecycle.Scenario.Concurrent
import Lifecycle.Scenario.Exhaust
import Lifecycle.Scenario.Orphan
import Lifecycle.Scenario.Stress
import Lifecycle.Scenario.Zombie
/-!
# Running scenarios from the command line

The command line names a scenario, how many slots its table has, and what is logged. The number of
slots is read before the table is set up and the numbers of the scenario after it. What a run leaves
is its log and an exit status.
-/

namespace Lifecycle

namespace CommandLine

/-- A scenario and its parameters as they were given. -/
inductive Command where
  | zombie
  | orphan
  | exhaust
  | stress (rounds seed : String)
  | concurrent (workers seed : String)
deriving DecidableEq

/-- What the command line asks for. -/
structure Invocation where
  log : Option String
  capacity : String
  command : Command
deriving DecidableEq

def logOption : Opt := ⟨"log", none, none⟩
def capacityOption : Opt := ⟨"capacity", some 'c', some "64"⟩
def roundsOption : Opt := ⟨"rounds", some 'r', some "1000"⟩
def workersOption : Opt := ⟨"workers", some 'w', some "8"⟩
def seedOption : Opt := ⟨"seed", some 's', some "0"⟩

def scenarios : List String := ["zombie", "orphan", "exhaust", "stress", "concurrent"]

def grammar : Grammar := ⟨[logOption, capacityOption], "help" :: scenarios⟩

/-- Reads the words after the name of a scenario, which has two options or none. -/
def readOptions (first second : Opt) (words : List String) : Except Stop (String × String) := do
  let (scan, _) ← (Grammar.mk [first, second] []).scan .start words
  let a ← Grammar.value first scan
  let b ← Grammar.value second scan
  return (a.getD "", b.getD "")

/-- Reads the words after the name of a scenario without options. -/
def readNothing (words : List String) : Except Stop Unit := do
  let _ ← (Grammar.mk [] []).scan .start words

/-- Help can be asked for on one subcommand at most. -/
def readHelp {α : Type} : List String → Except Stop α
  | [] => .error .help
  | [name] => .error (if name ∈ grammar.commands then .help else .misuse)
  | _ => .error .misuse

def readCommand (name : String) (words : List String) : Except Stop Command :=
  match name with
  | "zombie" => (readNothing words).map fun _ => .zombie
  | "orphan" => (readNothing words).map fun _ => .orphan
  | "exhaust" => (readNothing words).map fun _ => .exhaust
  | "stress" => (readOptions roundsOption seedOption words).map fun (a, b) => .stress a b
  | "concurrent" => (readOptions workersOption seedOption words).map fun (a, b) => .concurrent a b
  | _ => readHelp words

/-- Reads a command line. A scenario must be named. -/
def read (words : List String) : Except Stop Invocation := do
  match ← grammar.scan .start words with
  | (_, none) => throw .misuse
  | (scan, some (name, rest)) =>
    let command ← readCommand name rest
    let log ← Grammar.value logOption scan
    let capacity ← Grammar.value capacityOption scan
    return ⟨log, capacity.getD "", command⟩

/-- What is left of a run. -/
structure Run where
  status : Nat
  journal : Journal

/-- The end of a run that failed. -/
def Run.failed (journal : Journal) (failure : Failure) : Run :=
  ⟨1, journal.tell .main [.failed failure.text]⟩

/-- The end of a scenario, which tells its report if that has not been done. -/
def Run.ofResult {α : Type} (r : Scenario.Result α) (told : α → List Event) : Run :=
  match r.report with
  | .ok report => ⟨0, r.journal.tell .main (told report)⟩
  | .error failure => .failed r.journal failure

/-- Plays a scenario on a kernel that was just set up. -/
def Command.run (command : Command) (k : Kernel) (journal : Journal) : Run :=
  match command with
  | .zombie => .ofResult (Scenario.zombie k journal) fun r => [.reported r.text]
  | .orphan => .ofResult (Scenario.orphan k journal) fun r => [.reported r.text]
  | .exhaust => .ofResult (Scenario.exhaust k journal) fun r => [.reported r.text]
  | .stress rounds seed =>
    match readNumber rounds, readNumber seed with
    | some rounds, some seed =>
      .ofResult (Scenario.stress ChaCha.dice rounds (UInt64.ofNat seed) k journal) fun _ => []
    | _, _ => ⟨1, journal⟩
  | .concurrent workers seed =>
    match readNumber workers, readNumber seed with
    | some workers, some seed =>
      .ofResult (Scenario.concurrent ChaCha.dice workers (UInt64.ofNat seed) k journal) fun _ => []
    | _, _ => ⟨1, journal⟩

/-- Sets up a table and plays the scenario. -/
def Invocation.run (i : Invocation) : Run :=
  match readNumber i.capacity with
  | none => ⟨1, #[]⟩
  | some capacity =>
    let config := Config.withCapacity capacity
    match Kernel.boot config with
    | .error why => .failed #[] (.fault (.refused why))
    | .ok k =>
      i.command.run k (Journal.tell #[] .main [.booted config.capacity config.adopter])

/-- The log lines of a run, given the time stamp. -/
def Run.lines (run : Run) (i : Invocation) (stamp : String) : List String :=
  run.journal.lines (Filter.ofName i.log) stamp

/-- The exit status of a command line and the log lines it leads to. -/
def outcome (words : List String) (stamp : String) : Nat × List String :=
  match read words with
  | .error stop => (stop.status, [])
  | .ok i => (i.run.status, i.run.lines i stamp)

/-- Some nanoseconds in seconds with four places, nine columns wide. -/
def stamp (nanoseconds : Nat) : String :=
  let ticks := (nanoseconds + 50000) / 100000
  let places := toString (ticks % 10000)
  let text := toString (ticks / 10000) ++ "." ++ "".pushn '0' (4 - places.length) ++ places
  "".pushn ' ' (9 - text.length) ++ text

def usage : String :=
  "lifecycle [--log LEVEL] [-c SLOTS] SCENARIO\n\n" ++
  "  zombie                           A zombie is handed over\n" ++
  "  orphan                           An orphan is adopted\n" ++
  "  exhaust                          The table fills up\n" ++
  "  stress [-r ROUNDS] [-s SEED]     Random operations\n" ++
  "  concurrent [-w TREES] [-s SEED]  Random process trees"

end CommandLine

end Lifecycle
