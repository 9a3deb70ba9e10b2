import Lifecycle.Table.Audit
/-!
# Failures

How a whole run can go wrong: a call that was not answered, a table that breaks a rule, processes
that were never collected, a scenario that did not come about, or a run in which nobody can go on.
-/

namespace Lifecycle

/-- What a scenario missed. -/
inductive ScenarioDefect where
  | neverForked
  | adoptionUnseen
  | noRoom
  | reusedEarly
  | adopterIdle
  /-- A defect stated in words. -/
  | worded (text : String)
deriving DecidableEq

def ScenarioDefect.text : ScenarioDefect → String
  | neverForked => "parent never forked"
  | adoptionUnseen => "orphan never observed its adoption"
  | noRoom => "table has no room beyond init"
  | reusedEarly => "zombie slot reused before reaping"
  | adopterIdle => "init is not running"
  | worded text => text

/-- Why a run failed. -/
inductive Failure where
  | fault (fault : Fault)
  | breached (violation : Violation)
  /-- Processes other than the adopter are left. -/
  | lost (live : Nat)
  | scenario (defect : ScenarioDefect)
  /-- Everybody waits for somebody else. -/
  | stalled
deriving DecidableEq

def Failure.text : Failure → String
  | fault f => f.text
  | breached v => "invariant broken at " ++ v.text
  | lost live => toString live ++ " processes were never reaped"
  | scenario defect => "scenario failed: " ++ defect.text
  | stalled => "no process can make progress"

/-- The error that lies behind a failure, if another one does. -/
def Failure.cause? : Failure → Option String
  | fault f => some f.text
  | breached v => some v.text
  | lost _ | scenario _ | stalled => none

end Lifecycle
