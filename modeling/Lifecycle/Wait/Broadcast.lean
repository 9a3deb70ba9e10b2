import Lifecycle.Wait.Queue
/-!
# Broadcasting over one condition variable

Counters behind one lock, and one condition variable for all channels. A wake adds to its counter
and notifies every sleeper; a notified sleeper looks at the counter of its own channel, under the
lock, and either returns or parks again. A counter that is full cannot be woken once more.
-/

namespace Lifecycle

namespace Wait

/-- Counters, the sleepers parked on the condition variable, and those that have been notified and
have not looked yet. -/
structure Broadcast where
  counters : List Ticket
  parked : List Sleep
  notified : List Sleep
  nextId : Nat
deriving DecidableEq

namespace Broadcast

def start (channels : Nat) : Broadcast := ⟨List.replicate channels 0, [], [], 0⟩

/-- Adds a wake to a counter. -/
def bump (q : Broadcast) (channel : Nat) : Except Fault Broadcast :=
  match counter q.counters channel with
  | .error fault => .error fault
  | .ok count =>
    match checkedAdd count 1 with
    | none => .error .overflow
    | some next => .ok { q with counters := q.counters.set channel next }

/-- Unparks every sleeper. -/
def notifyAll (q : Broadcast) : Broadcast :=
  { q with parked := [], notified := q.notified ++ q.parked }

def call (q : Broadcast) : Call → Broadcast × Except Fault Reply
  | .prepare channel => (q, (counter q.counters channel).map .ticket)
  | .wake channel =>
    match q.bump channel with
    | .error fault => (q, .error fault)
    | .ok bumped => (bumped.notifyAll, .ok .woken)
  | .sleep channel ticket =>
    match counter q.counters channel with
    | .error fault => (q, .error fault)
    | .ok count =>
      if count ≠ ticket then (q, .ok .returned)
      else
        ({ q with parked := q.parked ++ [⟨q.nextId, channel, ticket⟩], nextId := q.nextId + 1 },
          .ok (.asleep q.nextId))

/-- The first notified sleeper looks at its counter: it returns or parks again. -/
def recheck (q : Broadcast) : Broadcast × Option Nat :=
  match q.notified with
  | [] => (q, none)
  | s :: rest =>
    if s.isOver q.counters then ({ q with notified := rest }, some s.id)
    else ({ q with notified := rest, parked := q.parked ++ [s] }, none)

/-- Every notified sleeper looks at its counter. -/
def recheckAll (q : Broadcast) : Broadcast × List Nat :=
  match _h : q.notified with
  | [] => (q, [])
  | _ :: _ =>
    let looked := q.recheck
    let rest := looked.1.recheckAll
    (rest.1, looked.2.toList ++ rest.2)
termination_by q.notified.length
decreasing_by
  simp only [recheck, *]
  split <;> simp

end Broadcast

end Wait

end Lifecycle
