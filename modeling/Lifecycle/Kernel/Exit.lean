import Lifecycle.Kernel.Basic
/-!
# Ending processes

A process that ends becomes a zombie with an exit code and no address space; its children go to the
adopter. Whoever may now have something to collect is woken: the adopter if it received a zombie,
and the parent. Callers blocked on behalf of the process itself are woken too, to learn that it
ended.
-/

namespace Lifecycle

namespace Kernel

/-- What there is to tell of the children handed over when a process ends. -/
def adoptions (t : Table) (former : Pid) : List Event :=
  (t.children former).map fun child => .adopted child t.adopter former

/-- Turns the process in a slot into a zombie and wakes whom it concerns. -/
def finish (k : Kernel) (i : Nat) (p : Pid) (code : ExitCode) (told : List Event) : Outcome Unit :=
  let s := k.table.slotAt i
  let ended := k.table.setSlot i
    { s with status := .zombie, exitCode := some code, space := none }
  let orphans := ended.childSlots p
  let adopted : Kernel := { k with table := ended.adopt p }
  let told := told ++ adoptions ended p
  let woken : Except Refusal Kernel :=
    if orphans.any (·.isZombie) then
      match adopted.table.slotOf? k.table.adopter with
      | none => .error (.noProcess k.table.adopter)
      | some j => .ok (adopted.wake j)
    else .ok adopted
  match woken with
  | .error why => ⟨.error (.refused why), adopted, told⟩
  | .ok woken =>
    let pages := (s.space.map AddressSpace.pageCount).getD 0
    ⟨.ok (), (woken.wakeProcess s.parent).wake i,
      told ++ [.exited p code pages orphans.length k.table.adopter]⟩

/-- Ends a running process, or a living one on whose behalf callers are blocked. The adopter must
not end. -/
def exit (k : Kernel) (p : Pid) (code : ExitCode) : Outcome Unit :=
  match k.table.slotOf? p with
  | none => k.refuse (.noProcess p)
  | some i =>
    if p = k.table.adopter then k.fail (.adopterExit p code)
    else
      let s := k.table.slotAt i
      if 0 < s.waiters ∧ s.status.isAlive then k.finish i p code [.endedBlocked p s.status]
      else if s.status.canBecome .zombie then k.finish i p code [.moved p s.status .zombie]
      else k.refuse (k.table.badStatus i p)

/-- Asks a living process to end. It is marked, and callers blocked on its behalf are woken. -/
def kill (k : Kernel) (p : Pid) : Outcome Unit :=
  match k.table.aliveSlot p with
  | .error why => k.refuse why
  | .ok i =>
    if p = k.table.adopter then k.refuse (k.table.badStatus i p)
    else
      let marked : Kernel :=
        { k with table := k.table.modifySlot i fun s => { s with killed := true } }
      ⟨.ok (), marked.wake i, [.killed p]⟩

end Kernel

end Lifecycle
