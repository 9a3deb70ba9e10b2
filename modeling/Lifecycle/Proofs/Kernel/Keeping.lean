import Lifecycle.Proofs.Kernel.Steps
/-!
# Who keeps an address space

Most operations give nobody an address space. A process keeps the one it has while it lives, and the
two are lost together. Only creation, activation and programs bind address spaces, and only a
scheduler makes a process live that has none.
-/

namespace Lifecycle

/-- The process of a slot goes on with the address space it has, or it is no longer alive and has
none. -/
inductive Slot.Keeps (s s' : Slot) : Prop
  | same (space : s'.space = s.space) (status : s'.status = s.status ∨ s.status.isAlive = true)
  | lost (space : s'.space = none) (dead : s'.status.isAlive = false)

namespace Slot

variable {s s' s'' : Slot}

theorem Keeps.refl (s : Slot) : s.Keeps s := .same rfl (.inl rfl)

theorem Keeps.trans (h : s.Keeps s') (h' : s'.Keeps s'') : s.Keeps s'' := by
  cases h' with
  | lost space dead => exact .lost space dead
  | same space status =>
    cases h with
    | same space' status' =>
      refine .same (space.trans space') ?_
      rcases status' with heq | ha
      · rwa [heq] at status
      · exact .inr ha
    | lost space' dead =>
      refine .lost (space.trans space') ?_
      rcases status with heq | ha
      · rwa [heq]
      · rw [dead] at ha
        cases ha

theorem Keeps.rouse (s : Slot) : s.Keeps s.rouse := by
  rw [Slot.rouse]
  split
  · rename_i hs
    exact .same rfl (.inr (by rw [hs]; rfl))
  · exact .refl s

theorem Keeps.space (h : s.Keeps s') : s'.space = s.space ∨ s'.space = none := by
  cases h with
  | same space status => exact .inl space
  | lost space dead => exact .inr space

end Slot

namespace Table

variable {t t' t'' : Table} {i : Nat}

/-- Every slot keeps its address space or loses it. -/
def Keeps (t t' : Table) : Prop := ∀ i, (t.slotAt i).Keeps (t'.slotAt i)

theorem Keeps.refl (t : Table) : t.Keeps t := fun _ => .refl _

theorem Keeps.trans (h : t.Keeps t') (h' : t'.Keeps t'') : t.Keeps t'' :=
  fun i => (h i).trans (h' i)

theorem keeps_modifySlot {f : Slot → Slot} (hf : (t.slotAt i).Keeps (f (t.slotAt i))) :
    t.Keeps (t.modifySlot i f) := rel_modifySlot .refl hf

/-- To write a slot is to rewrite it without regard to what it was. -/
theorem keeps_setSlot {s : Slot} (hs : (t.slotAt i).Keeps s) : t.Keeps (t.setSlot i s) := by
  have hset : t.setSlot i s = t.modifySlot i fun _ => s := by
    rw [setSlot, modifySlot, List.set_eq_modify]
  rw [hset]
  exact keeps_modifySlot hs

theorem keeps_adopt (t : Table) (p : Pid) : t.Keeps (t.adopt p) := by
  intro j
  rw [slotAt_adopt]
  split
  · exact .same rfl (.inl rfl)
  · exact .refl _

end Table

namespace Kernel

/-! ## Waking, reserving and ending -/

theorem keeps_wake (k : Kernel) (i : Nat) : k.table.Keeps (k.wake i).table := by
  rw [wake]
  split
  · exact .refl _
  · exact Table.keeps_modifySlot (.rouse _)

theorem keeps_wakeProcess (k : Kernel) (p : Option Pid) :
    k.table.Keeps (k.wakeProcess p).table := by
  rw [wakeProcess]
  split
  · exact k.keeps_wake _
  · exact .refl _

theorem keeps_reserve (k : Kernel) (parent : Pid) :
    k.table.Keeps (k.reserve parent).kernel.table := by
  rcases k.reserve_cases parent with ⟨why, h⟩ | ⟨i, j, -, -, h⟩ <;> rw [h]
  · exact .refl _
  · exact Table.keeps_setSlot (t := k.table) (.lost rfl rfl)

theorem keeps_finish (k : Kernel) (i : Nat) (p : Pid) (code : ExitCode) (told : List Event) :
    k.table.Keeps (k.finish i p code told).kernel.table := by
  have hended : k.table.Keeps ((k.table.setSlot i
      { k.table.slotAt i with status := .zombie, exitCode := some code, space := none }).adopt p) :=
    (Table.keeps_setSlot (.lost rfl rfl)).trans (Table.keeps_adopt _ p)
  unfold finish
  dsimp only
  split
  · exact hended
  · rename_i woken hw
    refine Table.Keeps.trans ?_ ((keeps_wakeProcess woken _).trans (keeps_wake _ i))
    split at hw
    · split at hw
      · simp at hw
      · obtain rfl := Except.ok.inj hw
        exact hended.trans (keeps_wake ⟨_, k.channels⟩ _)
    · obtain rfl := Except.ok.inj hw
      exact hended

theorem keeps_exit (k : Kernel) (p : Pid) (code : ExitCode) :
    k.table.Keeps (k.exit p code).kernel.table := by
  rcases k.exit_cases p code with ⟨why, h⟩ | h | ⟨i, told, -, -, -, h⟩ <;> rw [h]
  · exact .refl _
  · exact .refl _
  · exact k.keeps_finish i p code told

theorem keeps_kill (k : Kernel) (p : Pid) : k.table.Keeps (k.kill p).kernel.table := by
  rw [kill]
  split
  · exact .refl _
  · split
    · exact .refl _
    · refine Table.Keeps.trans ?_ (keeps_wake _ _)
      exact Table.keeps_modifySlot (.same rfl (.inl rfl))

/-! ## Collecting -/

theorem keeps_collect (k : Kernel) (parent : Pid) (i : Nat) (p : Pid) (code : ExitCode) :
    k.table.Keeps (k.collect parent i p code).kernel.table := by
  rw [collect]
  split
  · exact .refl _
  · rename_i t' ht
    obtain ⟨pool, -, rfl⟩ := Table.clear?_eq_some ht
    exact Table.keeps_setSlot (t := k.table) (.lost rfl rfl)

theorem keeps_tryWait (k : Kernel) (parent : Pid) (target : Target) :
    k.table.Keeps (k.tryWait parent target).kernel.table := by
  rcases k.tryWait_cases parent target with ⟨why, h⟩ | h | ⟨i, p, code, -, h⟩ <;> rw [h]
  · exact .refl _
  · exact .refl _
  · exact k.keeps_collect parent i p code

theorem keeps_reap (k : Kernel) (parent child : Pid) :
    k.table.Keeps (k.reap parent child).kernel.table := by
  rcases k.reap_cases parent child with ⟨why, h⟩ | ⟨i, code, -, -, -, -, -, h⟩ <;> rw [h]
  · exact .refl _
  · exact k.keeps_collect parent i child code

/-- Whoever falls asleep was running. -/
theorem keeps_block (k : Kernel) (c : Caller) : k.table.Keeps (k.block c).kernel.table := by
  refine Table.keeps_modifySlot ?_
  by_cases hr : (k.table.slotAt c.slot).status = .running
  · exact .same rfl (.inr (by rw [hr]; rfl))
  · exact .same rfl (.inl (by simp [hr]))

theorem keeps_look (k : Kernel) (c : Caller) : k.table.Keeps (k.look c).kernel.table := by
  rcases k.look_cases c with ⟨why, h⟩ | ⟨i, p, code, -, h⟩ | ⟨-, -, h⟩ <;> rw [h]
  · exact .refl _
  · exact k.keeps_collect c.parent i p code
  · exact k.keeps_block c

theorem keeps_wait (k : Kernel) (parent : Pid) (target : Target) :
    k.table.Keeps (k.wait parent target).kernel.table := by
  rw [wait]
  split
  · exact .refl _
  · exact k.keeps_look _

/-- A caller leaves the status of its process as it is, or wakes a living one up. -/
theorem keeps_leave {k : Kernel} {i : Nat} (left : Nat) {status : Status}
    (h : (k.table.slotAt i).status = status ∨ (k.table.slotAt i).status.isAlive = true) :
    k.table.Keeps (k.leave i left status).table :=
  Table.keeps_modifySlot (.same rfl (h.imp_left Eq.symm))

theorem keeps_resume (k : Kernel) (c : Caller) : k.table.Keeps (k.resume c).kernel.table := by
  rw [resume]
  split
  · exact .refl _
  · rename_i left _
    cases hst : (k.table.slotAt c.slot).status with
    | zombie =>
      have hleave := keeps_leave left (.inl hst)
      show k.table.Keeps (k.leaveZombie c.slot left).table
      rw [leaveZombie]
      split
      · exact hleave.trans (keeps_wakeProcess _ _)
      · exact hleave
    | sleeping => exact (keeps_leave left (.inr (by rw [hst]; rfl))).trans (keeps_look _ c)
    | runnable => exact (keeps_leave left (.inr (by rw [hst]; rfl))).trans (keeps_look _ c)
    | running => exact (keeps_leave left (.inl hst)).trans (keeps_look _ c)
    | used => exact (keeps_leave left (.inl hst)).trans (keeps_look _ c)
    | unused => exact (keeps_leave left (.inl hst)).trans (keeps_look _ c)

/-! ## Binding -/

/-- A process that may become ready is made ready and given an address space in one go. -/
theorem bind_eq {k : Kernel} {i : Nat}
    (hc : (k.table.slotAt i).status.canBecome .runnable = true) (p : Pid) (space : AddressSpace) :
    k.bind i p space = ⟨.ok (), { k with table := k.table.modifySlot i fun s =>
      { s with status := .runnable, space := some space } },
      [.moved p (k.table.slotAt i).status .runnable]⟩ := by
  have hadvance : k.table.advance i p .runnable =
      .ok (k.table.modifySlot i fun s => { s with status := .runnable }) := if_pos hc
  unfold bind
  rw [hadvance]
  simp only [Table.modifySlot, List.modify_modify_eq]
  rfl

theorem bind_refused {k : Kernel} {i : Nat}
    (hc : (k.table.slotAt i).status.canBecome .runnable = false) (p : Pid) (space : AddressSpace) :
    k.bind i p space = k.refuse (k.table.badStatus i p) := by
  have hadvance : k.table.advance i p .runnable = .error (k.table.badStatus i p) :=
    if_neg (by rw [hc]; decide)
  unfold bind
  rw [hadvance]

end Kernel

namespace Session

/-- Neither a call of wait nor the end of a sleep gives anybody an address space. -/
theorem keeps_wait (s : Session) (parent : Pid) (target : Target) :
    s.kernel.table.Keeps (s.wait parent target).1.kernel.table := by
  have hwait := s.kernel.keeps_wait parent target
  simp only [wait]
  split <;> exact hwait

theorem keeps_rouse (s : Session) (i : Nat) : s.kernel.table.Keeps (s.rouse i).1.kernel.table := by
  simp only [rouse]
  split
  · exact .refl _
  · rename_i sleeper _
    have hresume := s.kernel.keeps_resume sleeper.waiter.caller
    split <;> exact hresume

end Session

end Lifecycle
