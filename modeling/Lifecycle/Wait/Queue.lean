import Lifecycle.Fault
import Lifecycle.Wait.Channels
/-!
# Wait queues

A wait queue lets a caller take a ticket of a channel and sleep until the channel has been woken
since. What can be asked of a queue and what it answers is the same for every kind of queue.
-/

namespace Lifecycle

namespace Wait

/-- A sleep that has not returned. -/
structure Sleep where
  id : Nat
  channel : Nat
  ticket : Ticket
deriving DecidableEq

/-- What can be asked of a queue. -/
inductive Call where
  | prepare (channel : Nat)
  | wake (channel : Nat)
  | sleep (channel : Nat) (ticket : Ticket)
deriving DecidableEq

/-- What a queue answers at once. -/
inductive Reply where
  | ticket (ticket : Ticket)
  | woken
  | returned
  | asleep (id : Nat)
deriving DecidableEq

/-- The count of a channel, which must exist. -/
def counter (counters : List Ticket) (channel : Nat) : Except Fault Ticket :=
  match counters[channel]? with
  | none => .error .outOfBounds
  | some count => .ok count

/-- Whether the channel of a sleep has moved past its ticket. -/
def Sleep.isOver (s : Sleep) (counters : List Ticket) : Bool :=
  counters.getD s.channel s.ticket ≠ s.ticket

end Wait

end Lifecycle
