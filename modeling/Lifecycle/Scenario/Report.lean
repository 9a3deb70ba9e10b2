import Lifecycle.Failure
import Lifecycle.Kernel.Basic
/-!
# Reports

What a scenario tells when it succeeds. Its text lists the fields in order.
-/

namespace Lifecycle

namespace Scenario

def pidText (p : Pid) : String := "Pid(" ++ p.text ++ ")"

def reapedText (reaped : List (Pid × ExitCode)) : String :=
  "[" ++ ", ".intercalate (reaped.map fun (p, code) =>
    "(" ++ pidText p ++ ", " ++ exitText code ++ ")") ++ "]"

/-- A name and its fields. -/
def recordText (name : String) (fields : List (String × String)) : String :=
  name ++ " \x7b " ++ ", ".intercalate (fields.map fun (key, value) => key ++ ": " ++ value) ++
    " \x7d"

structure ZombieReport where
  parent : Pid
  child : Pid
  reaped : List (Pid × ExitCode)
deriving DecidableEq

def ZombieReport.text (r : ZombieReport) : String :=
  recordText "ZombieReport" [("parent", pidText r.parent), ("child", pidText r.child),
    ("reaped", reapedText r.reaped)]

structure OrphanReport where
  parent : Pid
  orphan : Pid
  /-- The parent that the orphan saw while still running. -/
  adoptedBy : Option Pid
  reaped : List (Pid × ExitCode)
deriving DecidableEq

def OrphanReport.text (r : OrphanReport) : String :=
  let adopter := match r.adoptedBy with
    | some p => "Some(" ++ pidText p ++ ")"
    | none => "None"
  recordText "OrphanReport" [("parent", pidText r.parent), ("orphan", pidText r.orphan),
    ("adopted_by", adopter), ("reaped", reapedText r.reaped)]

structure ExhaustReport where
  /-- How many processes were created before the table was full. -/
  filled : Nat
  /-- The identity handed out once a slot was free again. -/
  recovered : Pid
deriving DecidableEq

def ExhaustReport.text (r : ExhaustReport) : String :=
  recordText "ExhaustReport" [("filled", toString r.filled), ("recovered", pidText r.recovered)]

structure StressReport where
  created : Nat
  exited : Nat
  killed : Nat
  reaped : Nat
  exhausted : Nat
  maxLive : Nat
deriving DecidableEq

def StressReport.text (r : StressReport) : String :=
  recordText "StressReport" [("created", toString r.created), ("exited", toString r.exited),
    ("killed", toString r.killed), ("reaped", toString r.reaped),
    ("exhausted", toString r.exhausted), ("max_live", toString r.maxLive)]

structure ConcurrentReport where
  spawned : Nat
  exhausted : Nat
  reapedByParents : Nat
  reapedByInit : Nat
deriving DecidableEq

def ConcurrentReport.text (r : ConcurrentReport) : String :=
  recordText "ConcurrentReport" [("spawned", toString r.spawned),
    ("exhausted", toString r.exhausted), ("reaped_by_parents", toString r.reapedByParents),
    ("reaped_by_init", toString r.reapedByInit)]

end Scenario

/-- How a scenario went: its report or why it failed, and the kernel and the journal at the end. -/
structure Scenario.Result (α : Type) where
  report : Except Failure α
  kernel : Kernel
  journal : Journal

end Lifecycle
