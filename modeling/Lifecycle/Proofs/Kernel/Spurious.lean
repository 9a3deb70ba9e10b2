import Lifecycle.Proofs.Kernel.Frames
/-!
# Sleeps that end for no reason

A caller that nobody has woken finds, when its sleep ends all the same, what it went to sleep over:
its process lives and is not marked, and there are children to wait for but none to collect. So it
goes back to sleep with the ticket that it had. In between it runs, and a process that runs is put to
sleep when it blocks: one that was ready or running in the meantime, through a scheduler or another
of its callers, sleeps afterwards. Nothing else changes.
-/

namespace Lifecycle

namespace Slot

/-- The process of a slot falls asleep. -/
def lull (s : Slot) : Slot := { s with status := .sleeping }

theorem lull_of_sleeping {s : Slot} (h : s.status = .sleeping) : s.lull = s := by
  rw [lull, ← h]

end Slot

namespace Kernel

variable {k : Kernel} {c : Caller} {left : Nat}

/-- A caller that has to wait blocks. -/
theorem look_of_awaits (h : k.table.Awaits c) : k.look c = k.block c := by
  rw [look, if_neg (by simp [h.unkilled]), h.pending]

/-- A caller that leaves a process running and blocks on its behalf again puts it to sleep. -/
theorem block_leave (hleft : (k.table.slotAt c.slot).waiters = left + 1) :
    (k.leave c.slot left .running).block c =
      ⟨.ok (.asleep ⟨c, k.channels.ticket c.slot⟩),
        { k with table := k.table.modifySlot c.slot Slot.lull }, [.blocked c.parent]⟩ := by
  have htable : ((k.leave c.slot left .running).table.modifySlot c.slot fun s =>
      { s with
        waiters := s.waiters + 1
        status := if s.status = .running then .sleeping else s.status }) =
      k.table.modifySlot c.slot Slot.lull := by
    rw [leave, Table.modifySlot, Table.modifySlot, List.modify_modify_eq]
    refine Table.modifySlot_eq ?_
    simp only [Function.comp, if_true, Slot.lull, hleft]
  rw [block, htable]
  rfl

/-- A caller that has to wait goes back to sleep when its sleep ends. -/
theorem resume_of_awaits (h : k.table.Awaits c)
    (hleft : (k.table.slotAt c.slot).waiters = left + 1) :
    k.resume c = ⟨.ok (.asleep ⟨c, k.channels.ticket c.slot⟩),
      { k with table := k.table.modifySlot c.slot Slot.lull }, [.blocked c.parent]⟩ := by
  have hi := Table.lt_capacity_of_holds h.holds
  rw [resume_eq_look hleft h.alive, look_of_awaits, block_leave hleft]
  refine h.modifySlot hi (.of_alive h.alive rfl rfl rfl rfl) (fun _ => rfl) fun _ hz => ?_
  rw [Slot.not_zombie_of_alive h.alive] at hz
  cases hz

end Kernel

namespace Session

variable {config : Config} {s : Session}

/-- A caller that nobody has woken goes back to sleep with its ticket, and its process sleeps. -/
theorem rouse_of_awaits (h : s.scene.Sound) {i : Nat} {sleeper : Sleeper}
    (hi : s.sleepers[i]? = some sleeper) (hawaits : s.kernel.table.Awaits sleeper.waiter.caller)
    (hasleep : s.isWoken sleeper = false) :
    s.rouse i = ({ s with kernel := { s.kernel with
      table := s.kernel.table.modifySlot sleeper.waiter.caller.slot Slot.lull } },
      ⟨[], [.blocked sleeper.waiter.caller.parent]⟩) := by
  have hmem : sleeper.waiter ∈ s.scene.blocked :=
    mem_blocked.mpr ⟨sleeper, List.mem_of_getElem? hi, rfl⟩
  obtain ⟨left, hleft⟩ := Nat.exists_eq_succ_of_ne_zero (h.waiters_pos hmem)
  have hticket : s.kernel.channels.ticket sleeper.waiter.caller.slot = sleeper.waiter.ticket := by
    simpa [isWoken, Kernel.isWoken] using hasleep
  have hsame : s.sleepers.set i sleeper = s.sleepers := by
    obtain ⟨hlt, rfl⟩ := List.getElem?_eq_some_iff.mp hi
    exact List.set_getElem_self hlt
  simp only [rouse, hi, Kernel.resume_of_awaits hawaits hleft, hticket]
  rw [hsame]

/-- If the sleep of a caller ends although nobody has woken it, the caller does not return: it sleeps
again, with the same ticket. Its process, which was alive, sleeps too, so nothing has changed at all
exactly if it did so before. No other process changes its status, and nothing but a status changes. -/
theorem spurious_of_reachable (h : Reachable config s) {i : Nat} {sleeper : Sleeper}
    (hi : s.sleepers[i]? = some sleeper)
    (hfew : s.kernel.channels.count sleeper.waiter.caller.slot < 2 ^ 64)
    (hasleep : s.isWoken sleeper = false) :
    let slot := sleeper.waiter.caller.slot
    (s.rouse i).2.returned = [] ∧
      (s.rouse i).1 = { s with kernel := { s.kernel with
        table := s.kernel.table.modifySlot slot Slot.lull } } ∧
      (∀ j, (s.rouse i).1.kernel.table.slotAt j = { s.kernel.table.slotAt j with
        status := if slot = j then .sleeping else (s.kernel.table.slotAt j).status }) ∧
      (s.kernel.table.slotAt slot).status.isAlive = true ∧
      ((s.rouse i).1 = s ↔ (s.kernel.table.slotAt slot).status = .sleeping) := by
  intro slot
  have hawaits := awaits_of_asleep h.prompt (List.mem_of_getElem? hi) hfew hasleep
  have hlt : slot < s.kernel.table.capacity := Table.lt_capacity_of_holds hawaits.holds
  have hslots : ∀ j, (s.kernel.table.modifySlot slot Slot.lull).slotAt j =
      { s.kernel.table.slotAt j with
        status := if slot = j then .sleeping else (s.kernel.table.slotAt j).status } := by
    intro j
    rw [Table.slotAt_modifySlot hlt]
    split
    · rename_i hj
      rw [hj]
      rfl
    · rfl
  rw [rouse_of_awaits h.sound hi hawaits hasleep]
  refine ⟨rfl, rfl, hslots, hawaits.alive, ?_⟩
  constructor
  · intro hsame
    have hstatus : ((s.kernel.table.modifySlot slot Slot.lull).slotAt slot).status =
        (s.kernel.table.slotAt slot).status :=
      congrArg (fun s : Session => (s.kernel.table.slotAt slot).status) hsame
    rw [hslots] at hstatus
    simpa using hstatus.symm
  · intro hst
    have htable : s.kernel.table.modifySlot slot Slot.lull = s.kernel.table :=
      (Table.modifySlot_eq (g := id) (Slot.lull_of_sleeping hst)).trans (by
        rw [Table.modifySlot, List.modify_id])
    rw [htable]

/-- A process that is ready, and not running, waits for its child. -/
def readying : List Act :=
  [.serve (.create ⟨0⟩ []), .serve (.create ⟨1⟩ []), .wait ⟨1⟩ .any]

/-- The adopter waits for one child while another one of its callers collects other children. -/
def pestered (n : Nat) : Session :=
  { kernel :=
      { table :=
          { slots := [
              { Slot.blank with
                pid := some ⟨0⟩, status := .runnable, space := some .empty, waiters := 1 },
              { Slot.taken ⟨1⟩ ⟨0⟩ with status := .running, space := some .empty },
              .blank]
            pool := ⟨3, [⟨2⟩], ⟨0⟩⟩
            adopter := ⟨0⟩ }
        channels := ⟨[n, 0, 0]⟩ }
    sleepers := [⟨0, ⟨⟨0, ⟨0⟩, .only ⟨1⟩⟩, 0⟩⟩]
    nextId := 1 }

/-- A child of the adopter comes, ends and is collected. -/
def pestering : List Act :=
  [.serve (.create ⟨0⟩ []), .serve (.transition ⟨2⟩ .running), .serve (.exit ⟨2⟩ 7),
    .serve (.reap ⟨0⟩ ⟨2⟩)]

theorem follow_pestering (n : Nat) : (pestered n).follow pestering = pestered (n + 1) := by cbv

theorem reachable_pestered (n : Nat) : Reachable ⟨3, ⟨0⟩⟩ (pestered (n + 1)) := by
  induction n with
  | zero =>
    have hrun : run ⟨3, ⟨0⟩⟩ ([.serve (.create ⟨0⟩ []), .serve (.transition ⟨1⟩ .running),
      .wait ⟨0⟩ (.only ⟨1⟩)] ++ pestering) = .ok (pestered 1) := by cbv
    exact .run hrun
  | succ n ih =>
    rw [← follow_pestering]
    exact ih.follow pestering

/-- What nobody caused can be seen after all. A ready process sleeps when the sleep of its caller has
ended for no reason. And when a channel has been woken so often that its count is back where it was,
a caller that has been woken looks as if it had not: it returns. -/
theorem spurious_visible :
    (∃ s sleeper, run ⟨4, ⟨0⟩⟩ readying = .ok s ∧ s.sleepers[0]? = some sleeper ∧
      s.isWoken sleeper = false ∧
      s.kernel.table.slots.map (·.status) = [.running, .runnable, .runnable, .unused] ∧
      (s.rouse 0).1.kernel.table.slots.map (·.status) =
        [.running, .sleeping, .runnable, .unused]) ∧
    ∃ s sleeper, Reachable ⟨3, ⟨0⟩⟩ s ∧ s.sleepers[0]? = some sleeper ∧
      s.isWoken sleeper = false ∧ (s.rouse 0).2.returned = [(0, .ok (⟨1⟩, 5))] := by
  refine ⟨⟨_, _, rfl, rfl, by decide, by decide, by decide⟩, ?_⟩
  have hreach := (reachable_pestered (2 ^ 64 - 2)).act (.serve (.exit ⟨1⟩ 5))
  exact ⟨_, _, hreach, rfl, by decide, by decide⟩

theorem spurious_of_readying :
    ∃ s sleeper, run ⟨4, ⟨0⟩⟩ readying = .ok s ∧ s.sleepers[0]? = some sleeper ∧
      s.kernel.channels.count sleeper.waiter.caller.slot < 2 ^ 64 ∧ s.isWoken sleeper = false ∧
      (s.rouse 0).2.returned = [] ∧ (s.rouse 0).1 ≠ s ∧
      ((s.rouse 0).1.kernel.table.slotAt 1) = (s.kernel.table.slotAt 1).lull := by
  have hrun : run ⟨4, ⟨0⟩⟩ readying = .ok _ := rfl
  obtain ⟨hreturned, -, hslots, -, hsame⟩ :=
    spurious_of_reachable (.run hrun) (i := 0) rfl (by decide) (by decide)
  exact ⟨_, _, hrun, rfl, by decide, by decide, hreturned, by rw [ne_eq, hsame]; decide, hslots 1⟩

end Session

end Lifecycle
