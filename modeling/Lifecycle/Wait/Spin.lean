import Lifecycle.Wait.Queue
/-!
# Spinning on counters

One counter per channel, and sleepers that read the counter of their channel over and over. A
counter wraps around. Nobody is told of a wake: whoever spins on the channel sees it at the next
reading.
-/

namespace Lifecycle

namespace Wait

/-- Counters and the sleepers that spin on them. -/
structure SpinQueue where
  counters : List Ticket
  spinning : List Sleep
  nextId : Nat
deriving DecidableEq

namespace SpinQueue

def start (channels : Nat) : SpinQueue := ⟨List.replicate channels 0, [], 0⟩

def call (q : SpinQueue) : Call → SpinQueue × Except Fault Reply
  | .prepare channel => (q, (counter q.counters channel).map .ticket)
  | .wake channel =>
    match counter q.counters channel with
    | .error fault => (q, .error fault)
    | .ok _ => ({ q with counters := q.counters.modify channel (· + 1) }, .ok .woken)
  | .sleep channel ticket =>
    match counter q.counters channel with
    | .error fault => (q, .error fault)
    | .ok count =>
      if count ≠ ticket then (q, .ok .returned)
      else
        ({ q with spinning := q.spinning ++ [⟨q.nextId, channel, ticket⟩], nextId := q.nextId + 1 },
          .ok (.asleep q.nextId))

/-- Every spinning sleeper reads its counter once more; those whose count has moved return. -/
def poll (q : SpinQueue) : SpinQueue × List Nat :=
  ({ q with spinning := q.spinning.filter fun s => !s.isOver q.counters },
    (q.spinning.filter fun s => s.isOver q.counters).map (·.id))

end SpinQueue

end Wait

end Lifecycle
