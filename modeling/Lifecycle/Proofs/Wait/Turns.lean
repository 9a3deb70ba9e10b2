import Mathlib.Data.List.Induction
import Lifecycle.Wait.Broadcast
import Lifecycle.Wait.Spin
/-!
# Callers and sleepers taking turns

Callers call when they like, and sleepers look at their counters when they come to it. A spinning
sleeper reads its counter by itself. A wake of a broadcasting queue adds to its counter under the
lock and notifies the sleepers only after it has let go of the lock, so that other callers may come
in between; and a parked sleeper may come out of its sleep although nobody has notified it. A run of
a queue is any order of such turns.
-/

namespace Lifecycle

namespace Wait

/-- A call and what it was answered. -/
structure Answer where
  call : Call
  reply : Except Fault Reply

/-- What happens next at a queue. -/
inductive Turn where
  | call (call : Call)
  /-- A wake that has added to its counter notifies the sleepers. -/
  | notify
  /-- A sleeper looks at its counter, notified or not. -/
  | look (s : Sleep)
  /-- The wakes under way come to an end, and all who have reason to look do so. -/
  | settle
deriving DecidableEq

def Turn.call? : Turn → Option Call
  | call c => some c
  | notify | look _ | settle => none

def callsOf (turns : List Turn) : List Call := turns.filterMap Turn.call?

/-- What a queue does in each kind of turn. Looking tells who has returned. -/
structure Kind (σ : Type) where
  start : Nat → σ
  call : σ → Call → σ × Except Fault Reply
  notify : σ → σ
  look : σ → Sleep → σ × List Nat
  settle : σ → σ × List Nat
  asleep : σ → List Sleep

/-- A queue with the answers it has given and the sleepers that have returned. -/
structure Play (σ : Type) where
  queue : σ
  answers : List Answer
  released : List Nat

namespace Play

variable {σ : Type}

def answered (p : Play σ) (c : Call) (called : σ × Except Fault Reply) : Play σ :=
  ⟨called.1, p.answers ++ [⟨c, called.2⟩], p.released⟩

def looked (p : Play σ) (seen : σ × List Nat) : Play σ :=
  ⟨seen.1, p.answers, p.released ++ seen.2⟩

end Play

namespace Kind

variable {σ : Type}

def turn (k : Kind σ) (p : Play σ) : Turn → Play σ
  | .call c => p.answered c (k.call p.queue c)
  | .notify => { p with queue := k.notify p.queue }
  | .look s => p.looked (k.look p.queue s)
  | .settle => p.looked (k.settle p.queue)

/-- Turns taken one after another at a new queue. -/
def run (k : Kind σ) (channels : Nat) (turns : List Turn) : Play σ :=
  turns.foldl k.turn ⟨k.start channels, [], []⟩

theorem run_concat (k : Kind σ) (channels : Nat) (turns : List Turn) (t : Turn) :
    k.run channels (turns ++ [t]) = k.turn (k.run channels turns) t := by
  simp [run]

theorem calls_turn (k : Kind σ) (p : Play σ) (t : Turn) :
    (k.turn p t).answers.map (·.call) = p.answers.map (·.call) ++ t.call?.toList := by
  cases t <;> simp [turn, Play.answered, Play.looked, Turn.call?]

/-- Every call is answered, in the order of the calls. -/
theorem calls_run (k : Kind σ) (channels : Nat) (turns : List Turn) :
    (k.run channels turns).answers.map (·.call) = callsOf turns := by
  induction turns using List.reverseRecOn with
  | nil => rfl
  | append_singleton turns t ih =>
    rw [run_concat, calls_turn, ih, callsOf, callsOf, List.filterMap_append]
    cases t <;> rfl

end Kind

namespace SpinQueue

/-- A sleeper reads its counter and returns if it has moved. -/
def look (q : SpinQueue) (s : Sleep) : SpinQueue × List Nat :=
  if s ∈ q.spinning ∧ s.isOver q.counters = true then
    ({ q with spinning := q.spinning.erase s }, [s.id])
  else (q, [])

/-- Nobody is told of a wake. -/
def kind : Kind SpinQueue := ⟨start, call, id, look, poll, spinning⟩

end SpinQueue

namespace Broadcast

/-- A queue and the number of wakes that have added to their counter and notified nobody yet. -/
structure Midway where
  queue : Broadcast
  owed : Nat
deriving DecidableEq

/-- A sleeper comes out of its sleep, notified or not, before all others. -/
def stir (q : Broadcast) (s : Sleep) : Broadcast :=
  if s ∈ q.parked then { q with parked := q.parked.erase s, notified := s :: q.notified }
  else { q with notified := s :: q.notified.erase s }

namespace Midway

/-- The part of a call under the lock: a wake still owes its notification. -/
def call (q : Midway) : Call → Midway × Except Fault Reply
  | .wake channel =>
    match q.queue.bump channel with
    | .error fault => (q, .error fault)
    | .ok bumped => (⟨bumped, q.owed + 1⟩, .ok .woken)
  | .prepare channel =>
    (⟨(q.queue.call (.prepare channel)).1, q.owed⟩, (q.queue.call (.prepare channel)).2)
  | .sleep channel ticket =>
    (⟨(q.queue.call (.sleep channel ticket)).1, q.owed⟩, (q.queue.call (.sleep channel ticket)).2)

def notify (q : Midway) : Midway :=
  if q.owed = 0 then q else ⟨q.queue.notifyAll, q.owed - 1⟩

def look (q : Midway) (s : Sleep) : Midway × List Nat :=
  if s ∈ q.queue.parked ++ q.queue.notified then
    (⟨(q.queue.stir s).recheck.1, q.owed⟩, (q.queue.stir s).recheck.2.toList)
  else (q, [])

/-- The wakes that owe a notification give it, and every notified sleeper looks. -/
def settle (q : Midway) : Midway × List Nat :=
  let queue := if q.owed = 0 then q.queue else q.queue.notifyAll
  (⟨queue.recheckAll.1, 0⟩, queue.recheckAll.2)

end Midway

def kind : Kind Midway :=
  ⟨fun channels => ⟨start channels, 0⟩, Midway.call, Midway.notify, Midway.look, Midway.settle,
    fun q => q.queue.parked ++ q.queue.notified⟩

/-- A whole call is its part under the lock, followed by the notification that it owes. -/
theorem call_eq (q : Broadcast) (c : Call) :
    q.call c = ((Midway.call ⟨q, 0⟩ c).1.notify.queue, (Midway.call ⟨q, 0⟩ c).2) := by
  cases c with
  | prepare channel => rfl
  | wake channel =>
    simp only [call, Midway.call]
    cases q.bump channel <;> rfl
  | sleep channel ticket => rfl

/-- Everybody who has been notified looks: those whose counter has moved return, and the others
park again. -/
theorem recheckAll_eq (q : Broadcast) :
    q.recheckAll =
      ({ q with parked := q.parked ++ q.notified.filter (!·.isOver q.counters), notified := [] },
        (q.notified.filter (·.isOver q.counters)).map (·.id)) := by
  obtain ⟨counters, parked, notified, nextId⟩ := q
  induction notified generalizing parked with
  | nil => simp [recheckAll]
  | cons s rest ih =>
    rw [recheckAll]
    cases hover : s.isOver counters <;> simp [recheck, hover, ih]

end Broadcast

end Wait

end Lifecycle
