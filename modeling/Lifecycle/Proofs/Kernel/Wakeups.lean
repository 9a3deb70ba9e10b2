import Lifecycle.Proofs.Kernel.Integrity
import Mathlib.Algebra.Group.Nat.Defs
/-!
# No lost wake-ups

A blocked caller whose ticket is current has nothing to do: its process is alive and not marked as
killed, and it has a child to wait for but none to collect. In the middle of an act this may fail
for the callers of a slot that are still to be woken, and for no others. Every move keeps that.
-/

namespace Lifecycle

namespace Slot

variable {s s' : Slot} {parent : Pid} {target : Target}

theorem remains?_eq_none :
    s.remains? parent target = none ↔ ∀ p, s.matching? parent target = some p →
      s.waiters = 0 → s.isZombie = true → s.exitCode = none := by
  constructor
  · intro h p hm hw hz
    by_contra hc
    obtain ⟨code, hcode⟩ := Option.ne_none_iff_exists'.mp hc
    rw [remains?_eq_some.mpr ⟨hm, hw, hz, hcode⟩] at h
    simp at h
  · intro h
    rw [Option.eq_none_iff_forall_ne_some]
    intro x hr
    obtain ⟨p, code⟩ := x
    obtain ⟨hm, hw, hz, hcode⟩ := remains?_eq_some.mp hr
    rw [h p hm hw hz] at hcode
    simp at hcode

theorem remains?_of_not_zombie (h : s.isZombie = false) : s.remains? parent target = none :=
  remains?_eq_none.mpr fun _ _ _ hz => by simp [h] at hz

/-- A process that goes on becomes collectable only if its last caller leaves. -/
theorem Continues.remains?_eq_none (hc : s.Continues s') (h : s.remains? parent target = none)
    (hw : s'.waiters = 0 → s.isZombie = true → (s.matching? parent target).isSome = true →
      s.waiters = 0) : s'.remains? parent target = none := by
  rw [Slot.remains?_eq_none] at h ⊢
  intro p hm hw' hz
  rw [hc.matching?] at hm
  rw [hc.isZombie] at hz
  rw [hc.exitCode]
  exact h p hm (hw hw' hz (by rw [hm]; rfl)) hz

end Slot

namespace Table

/-- A caller has to wait: its process lives and is not marked, and it has a child to wait for but
none to collect. -/
structure Awaits (t : Table) (c : Caller) : Prop where
  holds : (t.slotAt c.slot).holds c.parent = true
  alive : (t.slotAt c.slot).status.isAlive = true
  unkilled : (t.slotAt c.slot).killed = false
  pending : t.find c.parent c.target = .pending

namespace Awaits

variable {t t' : Table} {c : Caller}

/-- The children of a table can be waited for if they could before, none of them having become
collectable. -/
theorem of_children (h : t.Awaits c) (hp : (t'.slotAt c.slot).holds c.parent = true)
    (ha : (t'.slotAt c.slot).status.isAlive = true) (hk : (t'.slotAt c.slot).killed = false)
    (hmatch : ∀ j, ((t.slotAt j).matching? c.parent c.target).isSome = true →
      ((t'.slotAt j).matching? c.parent c.target).isSome = true)
    (hrest : ∀ j, (t.slotAt j).remains? c.parent c.target = none →
      (t'.slotAt j).remains? c.parent c.target = none) : t'.Awaits c := by
  obtain ⟨⟨i, hi⟩, hnone⟩ := find_eq_pending.mp h.pending
  exact ⟨hp, ha, hk, find_eq_pending.mpr ⟨⟨i, hmatch i hi⟩, fun j => hrest j (hnone j)⟩⟩

theorem continues (h : t.Awaits c) (hc : t.Continues t')
    (hk : (t'.slotAt c.slot).killed = (t.slotAt c.slot).killed)
    (hw : ∀ j, (t'.slotAt j).waiters = 0 → (t.slotAt j).isZombie = true →
      ((t.slotAt j).matching? c.parent c.target).isSome = true → (t.slotAt j).waiters = 0) :
    t'.Awaits c := by
  refine h.of_children ?_ ((hc.slots _).alive h.alive) (hk.trans h.unkilled) (fun j hm => ?_)
    fun j hr => (hc.slots j).remains?_eq_none hr (hw j)
  · rw [(hc.slots _).holds]
    exact h.holds
  · rwa [(hc.slots j).matching?]

theorem modifySlot {i : Nat} {f : Slot → Slot} (h : t.Awaits c) (hi : i < t.capacity)
    (hgoes : (t.slotAt i).Continues (f (t.slotAt i)))
    (hk : i = c.slot → (f (t.slotAt i)).killed = (t.slotAt i).killed)
    (hw : (f (t.slotAt i)).waiters = 0 → (t.slotAt i).isZombie = true →
      ((t.slotAt i).matching? c.parent c.target).isSome = true → (t.slotAt i).waiters = 0) :
    (t.modifySlot i f).Awaits c := by
  refine h.continues (.modifySlot hi hgoes) ?_ fun j => ?_ <;> rw [slotAt_modifySlot hi]
  · split
    · rename_i hic
      rw [hk hic, hic]
    · rfl
  · split
    · rename_i hij
      rwa [← hij]
    · exact fun hj _ _ => hj

theorem take {i : Nat} {p parent : Pid} {pool : PidPool} (h : t.Awaits c) (hi : i < t.capacity)
    (hfree : (t.slotAt i).inUse = false) : (t.take i p parent pool).Awaits c := by
  have hslot : (t.take i p parent pool).slotAt c.slot = t.slotAt c.slot := by
    rw [slotAt_take hi, if_neg (ne_of_free hfree (Slot.inUse_of_alive h.alive))]
  refine h.of_children (by rw [hslot, h.holds]) (by rw [hslot, h.alive])
    (by rw [hslot, h.unkilled]) (fun j hm => ?_) fun j hr => ?_
  · obtain ⟨q, hq⟩ := Option.isSome_iff_exists.mp hm
    have hu := (Slot.holds_iff.mp (Slot.holds_of_matching? hq)).1
    rwa [slotAt_take hi, if_neg (ne_of_free hfree hu)]
  · rw [slotAt_take hi]
    split
    · exact Slot.remains?_of_not_zombie rfl
    · exact hr

/-- A zombie that is cleared away was no child that the caller waits for: it could have been
collected. -/
theorem drop {i : Nat} {pool : PidPool} {code : ExitCode} (h : t.Awaits c)
    (hz : (t.slotAt i).isZombie = true) (hempty : (t.slotAt i).waiters = 0)
    (hcode : (t.slotAt i).exitCode = some code) : (t.drop i pool).Awaits c := by
  have hi := lt_capacity_of_inUse (Slot.inUse_of_zombie hz)
  have hslot : (t.drop i pool).slotAt c.slot = t.slotAt c.slot := by
    rw [slotAt_drop hi, if_neg (ne_of_zombie hz h.alive)]
  refine h.of_children (by rw [hslot, h.holds]) (by rw [hslot, h.alive])
    (by rw [hslot, h.unkilled]) (fun j hm => ?_) fun j hr => ?_
  · rw [slotAt_drop hi, if_neg]
    · exact hm
    · intro heq
      subst heq
      obtain ⟨q, hq⟩ := Option.isSome_iff_exists.mp hm
      have hnone := (find_eq_pending.mp h.pending).2 i
      rw [Slot.remains?_eq_none.mp hnone q hq hempty hz] at hcode
      simp at hcode
  · rw [slotAt_drop hi]
    split
    · exact Slot.remains?_of_not_zombie rfl
    · exact hr

/-- A process that ends is neither the caller's nor its child, and hands it no zombie. -/
theorem fall {i : Nat} {p : Pid} {code : ExitCode} (h : t.Awaits c) (hs : t.Sound)
    (hr : t.Ranked) (hp : (t.slotAt i).holds p = true) (hself : i ≠ c.slot)
    (hparent : (t.slotAt i).parent ≠ some c.parent)
    (hadopter : c.slot = 0 →
      ∀ j, (t.slotAt j).isChildOf p = true → (t.slotAt j).isZombie = false) :
    (t.fall i p code).Awaits c := by
  have hi := lt_capacity_of_holds hp
  have hne : c.parent ≠ p := fun he => hself (hs.holds_unique _ _ p hp (he ▸ h.holds))
  refine h.of_children ((hr.holds_fall hp _ _).trans h.holds) ?_ ?_ (fun j hm => ?_) fun j hn => ?_
  · rw [slotAt_fall_eq hi hself]
    exact h.alive
  · rw [slotAt_fall_eq hi hself]
    exact h.unkilled
  · obtain ⟨q, hq⟩ := Option.isSome_iff_exists.mp hm
    have hchild := Slot.parent_of_matching? hq
    have hij : i ≠ j := by
      intro heq
      subst heq
      exact hparent hchild
    rw [slotAt_fall_other hi hij, if_neg]
    · exact hm
    · rw [Slot.isChildOf_iff, hchild]
      exact fun hc => hne (Option.some.inj hc.2)
  · by_cases hij : i = j
    · subst hij
      rw [hr.slotAt_fall_self hp]
      exact Slot.remains?_eq_none.mpr fun q hq => absurd (Slot.parent_of_matching? hq) hparent
    · rw [slotAt_fall_other hi hij]
      split
      · rename_i hc
        refine Slot.remains?_eq_none.mpr fun q hq _ hz => ?_
        have hlink := Slot.parent_of_matching? hq
        have hzero := (hs.eq_zero_iff h.holds).mpr (Option.some.inj hlink).symm
        change (t.slotAt j).isZombie = true at hz
        rw [hadopter hzero j hc] at hz
        simp at hz
      · exact hn

end Awaits

end Table

namespace Channels

/-- How often a channel has been woken. -/
def count (c : Channels) (i : Nat) : Nat := c.wakes.getD i 0

theorem count_wake {c : Channels} {i : Nat} (hi : i < c.wakes.length) (j : Nat) :
    (c.wake i).count j = if i = j then c.count j + 1 else c.count j := by
  simp only [count, wake, List.getD_eq_getElem?_getD, List.getElem?_modify]
  by_cases hij : i = j
  · subst hij
    simp [hi]
  · simp [hij]

theorem count_lt {c : Channels} (hfew : ∀ n ∈ c.wakes, n < 2 ^ 64) (i : Nat) :
    c.count i < 2 ^ 64 := by
  rw [count, List.getD_eq_getElem?_getD]
  cases hi : c.wakes[i]? with
  | none => decide
  | some n => exact hfew n (List.mem_of_getElem? hi)

/-- While a channel has been woken fewer than 2^64 times, a ticket tells when it was taken. -/
theorem count_of_ticket {c : Channels} {i n : Nat} (hn : n ≤ c.count i) (hfew : c.count i < 2 ^ 64)
    (h : c.ticket i = UInt64.ofNat n) : n = c.count i := by
  have hnat := congrArg UInt64.toNat h
  change (UInt64.ofNat (c.count i)).toNat = _ at hnat
  rw [UInt64.toNat_ofNat_of_lt' hfew, UInt64.toNat_ofNat_of_lt' (hn.trans_lt hfew)] at hnat
  exact hnat.symm

end Channels

namespace Scene

/-- The ticket of a caller was taken when its channel had been woken a number of times. If that is
still so, the caller is to be woken, or it has to wait. -/
def Dozes (x : Scene) (w : Waiter) : Prop :=
  ∃ n ≤ x.kernel.channels.count w.caller.slot, w.ticket = UInt64.ofNat n ∧
    (n = x.kernel.channels.count w.caller.slot →
      w.caller.slot ∈ x.owed ∨ x.table.Awaits w.caller)

/-- There is a channel for each slot, and no blocked caller is forgotten. -/
structure Prompt (x : Scene) : Prop where
  channels : x.kernel.channels.wakes.length = x.table.capacity
  dozes : ∀ w ∈ x.blocked, x.Dozes w

/-- A caller dozes on when its channel is not woken: it stays owed, gets owed, or still has to wait.
-/
theorem Dozes.keep {x y : Scene} {w : Waiter} (h : x.Dozes w)
    (hch : y.kernel.channels = x.kernel.channels) (howed : ∀ i ∈ x.owed, i ∈ y.owed)
    (hw : x.table.Awaits w.caller → w.caller.slot ∈ y.owed ∨ y.table.Awaits w.caller) :
    y.Dozes w := by
  obtain ⟨n, hn, hticket, hcurrent⟩ := h
  rw [Dozes]
  rw [hch]
  refine ⟨n, hn, hticket, fun hnow => ?_⟩
  rcases hcurrent hnow with hmem | hawaits
  · exact .inl (howed _ hmem)
  · exact hw hawaits

namespace Prompt

variable {x y : Scene}

/-- After the callers of a slot have been woken, none of them has a current ticket. -/
private theorem wake {k : Kernel} {blocked : Multiset Waiter} {i : Nat} {owed : List Nat}
    (hs : Sound ⟨k, blocked, i :: owed⟩) (h : Prompt ⟨k, blocked, i :: owed⟩) :
    Prompt ⟨k.wake i, blocked, owed⟩ := by
  have hlength := h.channels
  change k.channels.wakes.length = k.table.capacity at hlength
  by_cases h0 : (k.table.slotAt i).waiters = 0
  · rw [Kernel.wake_of_none h0]
    refine ⟨hlength, fun w hw => ?_⟩
    -- Nobody is blocked on behalf of this slot.
    obtain ⟨n, hn, hticket, hcurrent⟩ := h.dozes w hw
    refine ⟨n, hn, hticket, fun hnow => (hcurrent hnow).imp_left fun hmem => ?_⟩
    exact (List.mem_cons.mp hmem).resolve_left (hs.slot_ne hw h0)
  · have hi : i < k.channels.wakes.length := by
      rw [hlength]
      exact Table.lt_capacity_of_waiters h0
    have hc := k.continues_wake i
    have hslot := k.slotAt_wake i
    rw [Kernel.wake_of_waiters h0] at hc hslot ⊢
    refine ⟨?_, fun w hw => ?_⟩
    · show (k.channels.wakes.modify i _).length = (k.table.modifySlot i _).capacity
      rw [List.length_modify, hlength, Table.capacity_modifySlot]
    · obtain ⟨n, hn, hticket, hcurrent⟩ := h.dozes w hw
      change n ≤ k.channels.count w.caller.slot at hn
      change n = k.channels.count w.caller.slot → _ at hcurrent
      refine ⟨n, ?_, hticket, fun hnow => ?_⟩
      · show n ≤ (k.channels.wake i).count w.caller.slot
        rw [Channels.count_wake hi]
        split <;> omega
      · change n = (k.channels.wake i).count w.caller.slot at hnow
        rw [Channels.count_wake hi] at hnow
        split at hnow
        · omega
        · rename_i hne
          refine (hcurrent hnow).imp (fun hmem => ?_) fun hawaits => ?_
          · exact (List.mem_cons.mp hmem).resolve_left fun he => hne he.symm
          · refine hawaits.continues hc (hslot _).1 fun j hj _ _ => ?_
            rwa [← (hslot j).2]

/-- Every move from a sound scene keeps the callers from being forgotten. -/
theorem move {ds : List Deed} (hs : x.Sound) (h : x.Prompt) (hm : Move x ds y) : y.Prompt := by
  have hlength := h.channels
  cases hm with
  | @ease _ i f inUse goes killed waiters =>
    have hi := Table.lt_capacity_of_inUse inUse
    exact ⟨hlength.trans (Table.capacity_modifySlot ..).symm, fun w hw =>
      (h.dozes w hw).keep rfl (fun _ => id) fun hawaits =>
        .inr (hawaits.modifySlot hi goes (fun _ => killed) fun h0 _ _ => waiters.symm.trans h0)⟩
  | @mark _ i alive other =>
    have hu := Slot.inUse_of_alive alive
    refine ⟨hlength.trans (Table.capacity_modifySlot ..).symm, fun w hw =>
      (h.dozes w hw).keep rfl (fun _ => List.mem_cons_of_mem _) fun hawaits => ?_⟩
    by_cases hslot : i = w.caller.slot
    · exact .inl (hslot ▸ List.mem_cons_self)
    · exact .inr (hawaits.modifySlot (Table.lt_capacity_of_inUse hu)
        (.mark alive) (fun he => absurd he hslot) fun h0 _ _ => h0)
  | @take _ i parent free living =>
    obtain ⟨hi, hfree, -⟩ := Table.freeSlot?_eq_some.mp free
    exact ⟨hlength.trans Table.capacity_take.symm, fun w hw => (h.dozes w hw).keep rfl
      (fun _ => id) fun hawaits => .inr (hawaits.take hi hfree)⟩
  | @fall _ i p code debts holds alive other self parent adopter =>
    refine ⟨hlength.trans Table.capacity_fall.symm, fun w hw => (h.dozes w hw).keep rfl
      (fun j hj => List.mem_append_right _ hj) fun hawaits => ?_⟩
    by_cases hmem : w.caller.slot ∈ debts
    · exact .inl (List.mem_append_left _ hmem)
    · refine .inr (hawaits.fall hs.table hs.ranked holds ?_ (fun hlink => ?_) fun h0 j hj => ?_)
      · intro heq
        subst heq
        exact hmem self
      · exact hmem (parent _ _ hlink hawaits.holds)
      · by_contra hz
        exact hmem (h0 ▸ adopter ⟨j, hj, by simpa using hz⟩)
  | wake => exact h.wake hs
  | drop remains zombie empty parent code_eq =>
    exact ⟨hlength.trans Table.capacity_drop.symm, fun w hw => (h.dozes w hw).keep rfl
      (fun _ => id) fun hawaits => .inr (hawaits.drop zombie empty code_eq)⟩
  | @leave k w₀ blocked owed f debts goes killed waiters parent =>
    have hi : w₀.caller.slot < k.table.capacity :=
      Table.lt_capacity_of_waiters (by rw [waiters]; omega)
    refine ⟨hlength.trans (Table.capacity_modifySlot ..).symm, fun w hw =>
      (h.dozes w (Multiset.mem_cons_of_mem hw)).keep rfl (fun _ => List.mem_append_right _)
        fun hawaits => ?_⟩
    by_cases hmem : w.caller.slot ∈ debts
    · exact .inl (List.mem_append_left _ hmem)
    · -- The last caller to leave a zombie owes it to the zombie's parent, which this caller is not.
      refine .inr (hawaits.modifySlot hi goes (fun _ => killed) fun h0 hz hm => ?_)
      obtain ⟨q, hq⟩ := Option.isSome_iff_exists.mp hm
      have hlink := Slot.parent_of_matching? hq
      exact absurd (parent h0 hz _ _ hlink hawaits.holds) hmem
  | @rest _ c f holds alive unkilled pending goes killed waiters =>
    have hi := Table.lt_capacity_of_holds holds
    have hrest : ∀ {c' : Caller}, x.table.Awaits c' → (x.table.modifySlot c.slot f).Awaits c' :=
      fun hawaits => hawaits.modifySlot hi goes (fun _ => killed) fun h0 _ _ => by omega
    refine ⟨hlength.trans (Table.capacity_modifySlot ..).symm, fun w hw => ?_⟩
    rcases Multiset.mem_cons.mp hw with rfl | hw
    · exact ⟨_, Nat.le_refl _, rfl, fun _ => .inr (hrest ⟨holds, alive, unkilled, pending⟩)⟩
    · exact (h.dozes w hw).keep rfl (fun _ => id) fun hawaits => .inr (hrest hawaits)

theorem moves {ds : List Deed} (hs : x.Sound) (h : x.Prompt) (hm : Moves x ds y) : y.Prompt :=
  (hm.keep (P := fun x => x.Sound ∧ x.Prompt)
    (fun hx hm => ⟨hx.1.move hm, hx.2.move hx.1 hm⟩) ⟨hs, h⟩).2

end Prompt

end Scene

namespace Session

variable {config : Config} {s : Session}

theorem Reachable.prompt (h : Reachable config s) : s.scene.Prompt := by
  induction h with
  | boot hk =>
    obtain ⟨ht, hch⟩ := Kernel.boot_eq_ok hk
    refine ⟨?_, fun w hw => by simp [scene, start] at hw⟩
    simp only [scene, start, Scene.table, hch, Channels.silent, List.length_replicate]
    exact (Table.boot_eq_ok ht).2.1.symm
  | act a hr ih => exact ih.moves hr.sound (moves_act hr.sound a)

theorem awaits_of_asleep (h : s.scene.Prompt) {sleeper : Sleeper} (hmem : sleeper ∈ s.sleepers)
    (hfew : s.kernel.channels.count sleeper.waiter.caller.slot < 2 ^ 64)
    (hasleep : s.isWoken sleeper = false) : s.kernel.table.Awaits sleeper.waiter.caller := by
  obtain ⟨n, hn, hticket, hcurrent⟩ := h.dozes _ (mem_blocked.mpr ⟨sleeper, hmem, rfl⟩)
  have heq : s.kernel.channels.ticket sleeper.waiter.caller.slot = sleeper.waiter.ticket := by
    simpa [isWoken, Kernel.isWoken] using hasleep
  have hnow := Channels.count_of_ticket hn hfew (heq.trans hticket)
  apply (hcurrent hnow).resolve_left
  simp [scene]

/-- A caller that is asleep and has not been woken waits on behalf of a living process that is not
marked as killed. That process has a child which the caller waits for, and none to collect. -/
theorem reachable_wakeups (h : Reachable config s)
    (hfew : ∀ n ∈ s.kernel.channels.wakes, n < 2 ^ 64) {sleeper : Sleeper}
    (hmem : sleeper ∈ s.sleepers) (hasleep : s.isWoken sleeper = false) :
    let t := s.kernel.table
    let c := sleeper.waiter.caller
    t.slotOf? c.parent = some c.slot ∧ (t.slotAt c.slot).status.isAlive = true ∧
      (t.slotAt c.slot).killed = false ∧ t.find c.parent c.target = .pending ∧
      (∃ i, ((t.slotAt i).matching? c.parent c.target).isSome = true) ∧
      ∀ i, (t.slotAt i).remains? c.parent c.target = none := by
  have hblocked : sleeper.waiter ∈ s.scene.blocked := by
    simpa [scene] using ⟨sleeper, hmem, rfl⟩
  obtain ⟨n, hn, hticket, hcurrent⟩ := h.prompt.dozes _ hblocked
  have hnow : n = s.kernel.channels.count sleeper.waiter.caller.slot := by
    have heq : s.kernel.channels.ticket sleeper.waiter.caller.slot = sleeper.waiter.ticket := by
      simpa [isWoken, Kernel.isWoken] using hasleep
    exact Channels.count_of_ticket hn (Channels.count_lt hfew _) (heq.trans hticket)
  rcases hcurrent hnow with howed | hawaits
  · simp [scene] at howed
  · exact ⟨h.sound.table.slotOf?_of_holds hawaits.holds, hawaits.alive, hawaits.unkilled,
      hawaits.pending, Table.find_eq_pending.mp hawaits.pending⟩

/-- The adopter waits for one of its two children, is woken by the end of the other, and finds that
it has to sleep again. -/
def dozing : List Act :=
  [.serve (.create ⟨7⟩ []), .serve (.create ⟨7⟩ []), .wait ⟨7⟩ (.only ⟨0⟩),
    .serve (.transition ⟨1⟩ .running), .serve (.exit ⟨1⟩ 5), .rouse 0]

theorem wakeups_of_dozing :
    ∃ s, run ⟨4, ⟨7⟩⟩ dozing = .ok s ∧ s.kernel.channels.wakes = [1, 0, 0, 0] ∧
      s.sleepers = [⟨0, ⟨0, ⟨7⟩, .only ⟨0⟩⟩, 1⟩] ∧
      s.isWoken ⟨0, ⟨0, ⟨7⟩, .only ⟨0⟩⟩, 1⟩ = false ∧
      s.kernel.table.find ⟨7⟩ (.only ⟨0⟩) = .pending := by
  have hrun : run ⟨4, ⟨7⟩⟩ dozing = .ok _ := rfl
  have hwakeups := reachable_wakeups (.run hrun) (by decide)
    (List.mem_singleton_self (⟨0, ⟨0, ⟨7⟩, .only ⟨0⟩⟩, 1⟩ : Sleeper)) (by decide)
  exact ⟨_, hrun, by decide, by decide, by decide, hwakeups.2.2.2.1⟩

end Session

end Lifecycle
