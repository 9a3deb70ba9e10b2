import Lifecycle.Kernel.Basic
/-!
# Collecting children

A parent collects its zombies with a blocking wait, a wait that does not block, or by name. A
blocking wait has two halves. The first looks for a child and, if there is none to collect yet,
registers the caller with its slot and takes a ticket. The second runs when the sleep is over: it
leaves the slot and looks again. The last caller to leave a zombie tells the zombie's parent, which
could not collect it before.
-/

namespace Lifecycle

/-- A caller of wait: the slot of the process it speaks for, that process, and what it waits for. -/
structure Caller where
  slot : Nat
  parent : Pid
  target : Target
deriving DecidableEq

/-- A caller asleep on the channel of its slot. -/
structure Waiter where
  caller : Caller
  ticket : Ticket
deriving DecidableEq

/-- How far a wait got. -/
inductive Waiting where
  | collected (pid : Pid) (code : ExitCode)
  | asleep (waiter : Waiter)
deriving DecidableEq

namespace Kernel

/-- Frees the slot of a child that was found. -/
def collect (k : Kernel) (parent : Pid) (i : Nat) (p : Pid) (code : ExitCode) : Outcome ExitCode :=
  match k.table.clear? i p with
  | none => k.fail .corrupt
  | some table => ⟨.ok code, { k with table := table }, [.reaped parent p code]⟩

/-- Registers a caller with its slot and takes its ticket. A running process falls asleep. -/
def block (k : Kernel) (c : Caller) : Outcome Waiting :=
  let table := k.table.modifySlot c.slot fun s =>
    { s with
      waiters := s.waiters + 1
      status := if s.status = .running then .sleeping else s.status }
  ⟨.ok (.asleep ⟨c, k.channels.ticket c.slot⟩), { k with table := table }, [.blocked c.parent]⟩

/-- Looks for a child to collect and goes to sleep if there may be one later. -/
def look (k : Kernel) (c : Caller) : Outcome Waiting :=
  if (k.table.slotAt c.slot).killed then k.refuse .killed
  else
    match k.table.find c.parent c.target with
    | .found i p code => (k.collect c.parent i p code).map fun code => .collected p code
    | .noChildren => k.refuse .noChildren
    | .pending => k.block c

/-- The first half of a wait. -/
def wait (k : Kernel) (parent : Pid) (target : Target) : Outcome Waiting :=
  match k.table.aliveSlot parent with
  | .error why => k.refuse why
  | .ok i => k.look ⟨i, parent, target⟩

/-- Takes a caller off the slot it was registered with, which then has `left` callers. -/
def leave (k : Kernel) (i left : Nat) (status : Status) : Kernel :=
  { k with table := k.table.modifySlot i fun s => { s with waiters := left, status := status } }

@[simp] theorem leave_channels (k : Kernel) (i left : Nat) (status : Status) :
    (k.leave i left status).channels = k.channels := rfl

/-- Leaves a zombie; the last caller to do so wakes the zombie's parent. -/
def leaveZombie (k : Kernel) (i left : Nat) : Kernel :=
  if left = 0 then (k.leave i left .zombie).wakeProcess (k.table.slotAt i).parent
  else k.leave i left .zombie

/-- The second half of a wait, after its sleep is over for whatever reason. -/
def resume (k : Kernel) (c : Caller) : Outcome Waiting :=
  match (k.table.slotAt c.slot).waiters with
  | 0 => k.fail .overflow
  | left + 1 =>
    match (k.table.slotAt c.slot).status with
    | .zombie => (k.leaveZombie c.slot left).refuse .killed
    | .sleeping | .runnable => (k.leave c.slot left .running).look c
    | status => (k.leave c.slot left status).look c

/-- Whether a sleeper has been woken. -/
def isWoken (k : Kernel) (w : Waiter) : Bool := k.channels.ticket w.caller.slot ≠ w.ticket

/-- A wait that does not block: nothing while matching children exist but none can be collected. -/
def tryWait (k : Kernel) (parent : Pid) (target : Target) : Outcome (Option (Pid × ExitCode)) :=
  match k.table.aliveSlot parent with
  | .error why => k.refuse why
  | .ok i =>
    if (k.table.slotAt i).killed then k.refuse .killed
    else
      match k.table.find parent target with
      | .found i p code => (k.collect parent i p code).map fun code => some (p, code)
      | .pending => k.answer none
      | .noChildren => k.refuse .noChildren

/-- Collects a given child. -/
def reap (k : Kernel) (parent child : Pid) : Outcome ExitCode :=
  match k.table.aliveSlot parent with
  | .error why => k.refuse why
  | .ok _ =>
    match k.table.slotOf? child with
    | none => k.refuse (.noProcess child)
    | some i =>
      let s := k.table.slotAt i
      if s.parent = some parent then
        match s.status, s.exitCode, s.waiters with
        | .zombie, some code, 0 => k.collect parent i child code
        | _, _, _ => k.refuse (k.table.badStatus i child)
      else k.refuse .noChildren

end Kernel

end Lifecycle
