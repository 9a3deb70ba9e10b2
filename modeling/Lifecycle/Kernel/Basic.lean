import Lifecycle.Table.Audit
import Lifecycle.Wait.Channels
/-!
# The kernel

The process table together with the channels on which callers sleep, one channel per slot. Every
operation is one step: it yields a result, the kernel after it, and what there is to tell. The
kernel after a refused operation is part of the outcome, so that it can be compared with the one
before.
-/

namespace Lifecycle

/-- The process table and its wait channels. -/
structure Kernel where
  table : Table
  channels : Channels
deriving DecidableEq

/-- What an operation leads to. -/
structure Outcome (α : Type) where
  result : Except Fault α
  kernel : Kernel
  events : List Event

namespace Outcome

def map {α β : Type} (o : Outcome α) (f : α → β) : Outcome β :=
  ⟨o.result.map f, o.kernel, o.events⟩

/-- Goes on with a second step if the first succeeded. -/
def andThen {α β : Type} (o : Outcome α) (f : α → Kernel → Outcome β) : Outcome β :=
  match o.result with
  | .error fault => ⟨.error fault, o.kernel, o.events⟩
  | .ok a =>
    let next := f a o.kernel
    ⟨next.result, next.kernel, o.events ++ next.events⟩

end Outcome

namespace Kernel

def boot (config : Config) : Except Refusal Kernel :=
  (Table.boot config).map fun table => ⟨table, .silent config.capacity⟩

/-- An operation that succeeds and changes nothing. -/
def answer {α : Type} (k : Kernel) (a : α) : Outcome α := ⟨.ok a, k, []⟩

/-- An operation that fails and changes nothing. -/
def fail {α : Type} (k : Kernel) (fault : Fault) : Outcome α := ⟨.error fault, k, []⟩

def refuse {α : Type} (k : Kernel) (why : Refusal) : Outcome α := k.fail (.refused why)

/-- Wakes the callers blocked on behalf of the process in a slot. With nobody blocked it does
nothing. -/
def wake (k : Kernel) (i : Nat) : Kernel :=
  if (k.table.slotAt i).waiters = 0 then k
  else ⟨k.table.modifySlot i Slot.rouse, k.channels.wake i⟩

/-- Wakes the callers blocked on behalf of a process, if there is such a process. -/
def wakeProcess (k : Kernel) (p : Option Pid) : Kernel :=
  match p.bind k.table.slotOf? with
  | some i => k.wake i
  | none => k

end Kernel

end Lifecycle
