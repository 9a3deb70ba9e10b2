import Lifecycle.Scenario.Bench
/-!
# The table fills up

Children of the adopter are created until no slot is left. A zombie keeps its slot until it is
collected, and then makes room for one more process.
-/

namespace Lifecycle

namespace Scenario

namespace Exhaust

open Play

/-- Creates running children until the table is full; the latest comes first. -/
def fill (adopter : Pid) : Nat → List Pid → Play Unit (List Pid)
  | 0, _ => throw .stalled
  | tries + 1, pids => do
    match ← attempt (·.create adopter defaultImage) with
    | .ok p =>
      need (·.transition p .running)
      fill adopter tries (p :: pids)
    | .error (.refused .tableFull) => return pids
    | .error fault => throw (.fault fault)

def play : Play Unit ExhaustReport := do
  let adopter := (← table).adopter
  let pids ← fill adopter (← table).capacity []
  match pids with
  | [] => throw (.scenario .noRoom)
  | victim :: others =>
    need (·.exit victim 0)
    match ← attempt (·.allocate adopter) with
    | .error (.refused .tableFull) => pure ()
    | _ => throw (.scenario .reusedEarly)
    match ← collect adopter (.only victim) with
    | .ok _ => pure ()
    | .error fault => throw (.fault fault)
    let recovered ← need (·.create adopter defaultImage)
    need (·.transition recovered .running)
    tell (.refilled pids.length recovered)
    (others.reverse ++ [recovered]).forM fun p => need (·.exit p 0)
    settle
    return ⟨pids.length, recovered⟩

end Exhaust

def exhaust (k : Kernel) (journal : Journal) : Result ExhaustReport :=
  Exhaust.play.result k journal ()

end Scenario

end Lifecycle
