import Lifecycle.Table.Basic
/-!
# Auditing a table

Checks a table, sound or not, slot by slot, and reports the first rule that is broken. From each
process the parent links must lead to the adopter within as many steps as there are slots.
-/

namespace Lifecycle

/-- A rule of the process table that is broken. -/
inductive Breach where
  | unusedWithPid
  | liveWithoutPid
  | sharedPid
  | strayExitCode
  | aliveWithoutSpace
  | zombieWithSpace
  | adopterWithParent
  | noParent
  | danglingParent
  | zombieParent
  | parentCycle
  /-- A rule stated in words. -/
  | worded (text : String)
deriving DecidableEq

def Breach.text : Breach → String
  | unusedWithPid => "unused slot keeps an identity"
  | liveWithoutPid => "live slot without identity"
  | sharedPid => "identity shared by two live slots"
  | strayExitCode => "exit code set iff zombie"
  | aliveWithoutSpace => "live process without address space"
  | zombieWithSpace => "zombie still holds its address space"
  | adopterWithParent => "adopter has a parent"
  | noParent => "missing parent link"
  | danglingParent => "dangling parent link"
  | zombieParent => "parent is a zombie"
  | parentCycle => "cycle in parent links"
  | worded text => text

/-- A broken rule and the slot that breaks it. -/
structure Violation where
  slot : Nat
  breach : Breach
deriving DecidableEq

def Violation.text (v : Violation) : String := "slot " ++ toString v.slot ++ ": " ++ v.breach.text

namespace Table

/-- Follows parent links up to the adopter, in at most the given number of steps. -/
def climb (t : Table) : Nat → Option Pid → Option Breach
  | steps, link =>
    match link with
    | none => some .noParent
    | some ancestor =>
      if ancestor = t.adopter then none
      else
        match t.slotOf? ancestor with
        | none => some .danglingParent
        | some i =>
          if (t.slotAt i).isZombie then some .zombieParent
          else
            match steps with
            | 0 => some .parentCycle
            | left + 1 => t.climb left (t.slotAt i).parent

/-- The rule that a slot breaks, given the slots after it. -/
def breach? (t : Table) (s : Slot) (later : List Slot) : Option Breach :=
  if s.inUse then
    match s.pid with
    | none => some .liveWithoutPid
    | some p =>
      if later.any (·.holds p) then some .sharedPid
      else if s.isZombie ≠ s.exitCode.isSome then some .strayExitCode
      else if s.status.isAlive ∧ s.space.isNone then some .aliveWithoutSpace
      else if s.isZombie ∧ s.space.isSome then some .zombieWithSpace
      else if p = t.adopter then if s.parent.isSome then some .adopterWithParent else none
      else t.climb t.capacity s.parent
  else if s.pid.isSome then some .unusedWithPid
  else none

/-- The first violation among the slots from index `i` on. -/
def auditFrom (t : Table) (i : Nat) : List Slot → Option Violation
  | [] => none
  | s :: later =>
    match t.breach? s later with
    | some breach => some ⟨i, breach⟩
    | none => t.auditFrom (i + 1) later

/-- The first violation of a table, if there is any. -/
def audit (t : Table) : Option Violation := t.auditFrom 0 t.slots

end Table

end Lifecycle
