import Lifecycle.Memory.Space
/-!
# Slots of the process table

A slot holds one process, or nothing. Its fields are independent, so that a table that makes no
sense can be written down and judged.
-/

namespace Lifecycle

/-- One slot of the process table. -/
structure Slot where
  pid : Option Pid
  status : Status
  parent : Option Pid
  exitCode : Option ExitCode
  space : Option AddressSpace
  killed : Bool
  /-- How many callers are blocked in a wait on behalf of this process. -/
  waiters : Nat
deriving DecidableEq

/-- What can be told of a process from outside. -/
structure Profile where
  pid : Pid
  status : Status
  parent : Option Pid
  exitCode : Option ExitCode
  killed : Bool
deriving DecidableEq

/-- Which children a wait is about. -/
inductive Target where
  | any
  | only (pid : Pid)
deriving DecidableEq

def Target.matches : Target → Pid → Bool
  | any, _ => true
  | only p, q => p = q

namespace Slot

/-- A slot without a process. -/
def blank : Slot := ⟨none, .unused, none, none, none, false, 0⟩

/-- A slot taken for a new process. -/
def taken (pid parent : Pid) : Slot :=
  { blank with pid := some pid, status := .used, parent := some parent }

def inUse (s : Slot) : Bool := s.status ≠ .unused

def isZombie (s : Slot) : Bool := s.status = .zombie

def holds (s : Slot) (p : Pid) : Bool := s.inUse && s.pid = some p

def isChildOf (s : Slot) (parent : Pid) : Bool := s.inUse && s.parent = some parent

/-- The identity of a child that a wait is about. -/
def matching? (s : Slot) (parent : Pid) (target : Target) : Option Pid :=
  if s.isChildOf parent then s.pid.filter target.matches else none

/-- What a wait can collect from a slot: a zombie on whose behalf nobody is blocked. While
somebody is, the slot must not be given to another process. -/
def remains? (s : Slot) (parent : Pid) (target : Target) : Option (Pid × ExitCode) :=
  match s.matching? parent target with
  | none => none
  | some pid =>
    if s.waiters = 0 && s.isZombie then s.exitCode.map fun code => (pid, code) else none

def profile? (s : Slot) : Option Profile :=
  s.pid.map fun pid => ⟨pid, s.status, s.parent, s.exitCode, s.killed⟩

/-- A sleeping process becomes ready. -/
def rouse (s : Slot) : Slot := if s.status = .sleeping then { s with status := .runnable } else s

end Slot

end Lifecycle
