import Lifecycle.Log.Event
import Lifecycle.Task.Slot
/-!
# The process table

A fixed number of slots, a pool of identities, and the adopter: the process in the first slot, to
which every orphan is handed over. All searches run through the slots in order and take the first
hit.
-/

namespace Lifecycle

/-- How many slots a table has, and who its adopter is. -/
structure Config where
  capacity : Nat
  adopter : Pid
deriving DecidableEq

namespace Config

def standard : Config := ⟨64, ⟨0⟩⟩

def withCapacity (capacity : Nat) : Config := { standard with capacity := capacity }

end Config

/-- The processes there are. -/
structure Table where
  slots : List Slot
  pool : PidPool
  adopter : Pid
deriving DecidableEq

namespace Table

/-- A table that holds only the adopter, running in an empty address space. -/
def boot (config : Config) : Except Refusal Table :=
  match config.capacity with
  | 0 => .error (.badConfig .noRoom)
  | n + 1 =>
    let first : Slot :=
      { Slot.blank with pid := some config.adopter, status := .running, space := some .empty }
    .ok ⟨first :: List.replicate n .blank, .fresh config.adopter, config.adopter⟩

def capacity (t : Table) : Nat := t.slots.length

/-- The slot at an index; past the end, a blank one. -/
def slotAt (t : Table) (i : Nat) : Slot := t.slots.getD i .blank

def setSlot (t : Table) (i : Nat) (s : Slot) : Table := { t with slots := t.slots.set i s }

def modifySlot (t : Table) (i : Nat) (f : Slot → Slot) : Table :=
  { t with slots := t.slots.modify i f }

def slotOf? (t : Table) (p : Pid) : Option Nat := t.slots.findIdx? (·.holds p)

def freeSlot? (t : Table) : Option Nat := t.slots.findIdx? fun s => !s.inUse

/-- The refusal for a process whose status does not allow a call. -/
def badStatus (t : Table) (i : Nat) (p : Pid) : Refusal := .badStatus p (t.slotAt i).status

/-- The slot of a process that is alive. -/
def aliveSlot (t : Table) (p : Pid) : Except Refusal Nat :=
  match t.slotOf? p with
  | none => .error (.noProcess p)
  | some i => if (t.slotAt i).status.isAlive then .ok i else .error (t.badStatus i p)

/-- The slot of a process that is running. -/
def runningSlot (t : Table) (p : Pid) : Except Refusal Nat :=
  match t.slotOf? p with
  | none => .error (.noProcess p)
  | some i => if (t.slotAt i).status = .running then .ok i else .error (t.badStatus i p)

/-- Moves a process to its next status, if its life may go on that way. -/
def advance (t : Table) (i : Nat) (p : Pid) (next : Status) : Except Refusal Table :=
  if (t.slotAt i).status.canBecome next then
    .ok (t.modifySlot i fun s => { s with status := next })
  else .error (t.badStatus i p)

/-- The slots of a parent's children. -/
def childSlots (t : Table) (parent : Pid) : List Slot := t.slots.filter (·.isChildOf parent)

def children (t : Table) (parent : Pid) : List Pid := (t.childSlots parent).filterMap (·.pid)

/-- Hands the children of a process over to the adopter. -/
def adopt (t : Table) (former : Pid) : Table :=
  { t with slots := t.slots.map fun s =>
      if s.isChildOf former then { s with parent := some t.adopter } else s }

/-- What a wait finds. -/
inductive Finding where
  | found (slot : Nat) (pid : Pid) (code : ExitCode)
  | pending
  | noChildren
deriving DecidableEq

/-- The first collectable child, else whether there is any child to wait for. -/
def find (t : Table) (parent : Pid) (target : Target) : Finding :=
  let hit := t.slots.zipIdx.findSome? fun (s, i) =>
    (s.remains? parent target).map fun (pid, code) => Finding.found i pid code
  match hit with
  | some finding => finding
  | none =>
    if t.slots.any fun s => (s.matching? parent target).isSome then .pending else .noChildren

/-- Frees a slot and returns its identity to the pool. A slot that is no zombie's, one whose
process still has children, and an identity that the pool does not expect are contradictions. -/
def clear? (t : Table) (i : Nat) (p : Pid) : Option Table :=
  if (t.slotAt i).status.canBecome .unused ∧ t.childSlots p = [] then
    (t.pool.release? p).map fun pool => { t.setSlot i .blank with pool := pool }
  else none

/-! ## What can be asked of a table -/

def status? (t : Table) (p : Pid) : Option Status := (t.slotOf? p).map fun i => (t.slotAt i).status

def parent? (t : Table) (p : Pid) : Option Pid := (t.slotOf? p).bind fun i => (t.slotAt i).parent

def exitCode? (t : Table) (p : Pid) : Option ExitCode :=
  (t.slotOf? p).bind fun i => (t.slotAt i).exitCode

def profile? (t : Table) (p : Pid) : Option Profile :=
  (t.slotOf? p).bind fun i => (t.slotAt i).profile?

/-- The address space of a process, if it still holds one. -/
def space? (t : Table) (p : Pid) : Option AddressSpace :=
  (t.slotOf? p).bind fun i => (t.slotAt i).space

/-- Every process, in slot order. -/
def profiles (t : Table) : List Profile := t.slots.filterMap Slot.profile?

def liveCount (t : Table) : Nat := t.slots.countP (·.inUse)

end Table

end Lifecycle
