import Lifecycle.Proofs.Kernel.Keeping
/-!
# What installing a process comes to

A process is installed when a slot has been taken for it and an address space has been bound to it.
In one go that writes a ready process into the first free slot. A parent that is not alive is refused
first, then a table without a free slot. To create or to fork comes to an installation: what these
calls do besides is tell of it.
-/

namespace Lifecycle

/-- A process that has just been created. -/
def Slot.ready (p parent : Pid) (space : AddressSpace) : Slot :=
  ⟨some p, .runnable, some parent, none, some space, false, 0⟩

namespace Table

variable {t : Table} {i j : Nat} {parent : Pid} {space : AddressSpace}

/-- The table in which the next process is in a slot. -/
def seat (t : Table) (i : Nat) (parent : Pid) (space : AddressSpace) : Table :=
  { t.setSlot i (.ready t.pool.issue.1 parent space) with pool := t.pool.issue.2 }

theorem slotAt_seat (hi : i < t.capacity) (j : Nat) : (t.seat i parent space).slotAt j =
    if i = j then .ready t.pool.issue.1 parent space else t.slotAt j := slotAt_setSlot hi _ j

/-- A process is seated when a slot is taken for it and an address space is bound to it. -/
theorem seat_eq : (t.fill i parent).modifySlot i (fun s =>
    { s with status := .runnable, space := some space }) = t.seat i parent space := by
  have hset : (t.slots.set i (.taken t.pool.issue.1 parent)).modify i (fun s =>
      { s with status := .runnable, space := some space }) =
      t.slots.set i (.ready t.pool.issue.1 parent space) := by
    rw [List.set_eq_modify, List.modify_modify_eq, List.set_eq_modify]
    rfl
  rw [modifySlot, seat, fill, take, setSlot, setSlot]
  exact congrArg (fun slots => (⟨slots, t.pool.issue.2, t.adopter⟩ : Table)) hset

end Table

namespace Kernel

open Outcome

variable {α : Type} {k : Kernel} {parent : Pid} {space : AddressSpace} {i j : Nat}

/-! ## Installing -/

/-- Whom a parent is refused, it is refused whether or not there is room. -/
theorem install_refused {why : Refusal} (ha : k.table.aliveSlot parent = .error why) :
    k.install parent space = k.refuse why := by
  rw [install, reserve, ha]
  rfl

theorem install_full (ha : k.table.aliveSlot parent = .ok j) (hfull : k.table.freeSlot? = none) :
    k.install parent space = k.refuse .tableFull := by
  rw [install, reserve, ha, hfull]
  rfl

theorem install_seated (ha : k.table.aliveSlot parent = .ok j)
    (hfree : k.table.freeSlot? = some i) :
    (k.install parent space).Agrees
      (answer { k with table := k.table.seat i parent space } k.table.pool.issue.1) := by
  obtain ⟨hi, -, -⟩ := Table.freeSlot?_eq_some.mp hfree
  have hslot : (k.table.fill i parent).slotAt i = .taken k.table.pool.issue.1 parent :=
    (Table.slotAt_take hi i).trans (if_pos rfl)
  have hbecomes : ((k.table.fill i parent).slotAt i).status.canBecome .runnable = true := by
    rw [hslot]
    rfl
  have hreserve : k.reserve parent = ⟨.ok (i, k.table.pool.issue.1),
      { k with table := k.table.fill i parent },
      [.allocated k.table.pool.issue.1 i parent]⟩ := by
    rw [reserve, ha, hfree]
    rfl
  rw [install, hreserve, Outcome.andThen]
  simp only [bind_eq (k := { k with table := k.table.fill i parent }) hbecomes, Table.seat_eq]
  exact ⟨rfl, rfl⟩

/-- An installation is refused, or it seats the next process in the first free slot. -/
theorem install_cases (k : Kernel) (parent : Pid) (space : AddressSpace) :
    (∃ why, k.install parent space = k.refuse why) ∨
      ∃ i, k.table.freeSlot? = some i ∧ (k.install parent space).Agrees
        (answer { k with table := k.table.seat i parent space } k.table.pool.issue.1) := by
  cases ha : k.table.aliveSlot parent with
  | error why => exact .inl ⟨why, install_refused ha⟩
  | ok j =>
    cases hfree : k.table.freeSlot? with
    | none => exact .inl ⟨.tableFull, install_full ha hfree⟩
    | some i => exact .inr ⟨i, rfl, install_seated ha hfree⟩

/-! ## Creating and forking -/

theorem create_eq_adoptBuild (k : Kernel) (parent : Pid) (regions : List Region) :
    (k.create parent regions).Agrees (k.adoptBuild parent (AddressSpace.ofRegions regions)) := by
  unfold create
  dsimp only
  split
  · rename_i why hbuilt
    rw [adoptBuild, hbuilt]
    exact ⟨rfl, rfl⟩
  · exact ⟨rfl, rfl⟩

theorem adoptBuild_eq_install {built : Build α} {a : α} (hbuilt : built.result = .ok a) :
    (k.adoptBuild parent built).Agrees (k.install parent built.space) := by
  rw [adoptBuild, hbuilt]
  exact andThen_tell (k.install parent built.space) fun p =>
    [.created p parent built.space.pageCount]

/-- Creating a process whose address space can be built comes down to installing it. -/
theorem create_eq_install (k : Kernel) {regions : List Region}
    (hb : (AddressSpace.ofRegions regions).result = .ok ()) : (k.create parent regions).Agrees
      (k.install parent (AddressSpace.ofRegions regions).space) :=
  (k.create_eq_adoptBuild parent regions).trans (adoptBuild_eq_install hb)

theorem fork_eq_install (hslot : k.table.slotOf? parent = some i)
    (hrunning : (k.table.slotAt i).status = .running)
    (hspace : (k.table.slotAt i).space = some space) :
    (k.fork parent).Agrees (k.install parent space.copy) := by
  have hrun : k.table.runningSlot parent = .ok i := by
    rw [Table.runningSlot, hslot]
    exact if_pos hrunning
  unfold fork
  rw [hrun]
  simp only [hspace]
  exact andThen_tell (k.install parent space.copy) fun p => [.forked parent p]

end Kernel

end Lifecycle
