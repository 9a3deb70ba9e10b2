import Lifecycle.Proofs.Kernel.Scene
/-!
# Sound scenes

The table of a scene is sound and its identities are accounted for; each slot counts exactly the
callers that are blocked on its behalf; and the slot of a blocked caller still holds the process
that it speaks for. Every move keeps this.
-/

namespace Lifecycle

theorem Slot.Continues.ne_used {s s' : Slot} (h : s.Continues s') (hs : s.status ≠ .used) :
    s'.status ≠ .used := by
  rcases h.status with ⟨he, -⟩ | ⟨-, ha⟩
  · rwa [he]
  · intro hu
    simp [hu, Status.isAlive] at ha

/-- The slot of a caller holds the process that it speaks for, started already. -/
def Table.Pins (t : Table) (c : Caller) : Prop :=
  (t.slotAt c.slot).holds c.parent = true ∧ (t.slotAt c.slot).status ≠ .used

theorem Table.Continues.pins {t t' : Table} (h : t.Continues t') {c : Caller} (hc : t.Pins c) :
    t'.Pins c :=
  ⟨by rw [(h.slots _).holds]; exact hc.1, (h.slots _).ne_used hc.2⟩

theorem Table.Pins.congr {t t' : Table} {c : Caller} (hc : t.Pins c)
    (h : t'.slotAt c.slot = t.slotAt c.slot) : t'.Pins c := by
  rw [Table.Pins]
  rwa [h]

namespace Scene

structure Sound (x : Scene) : Prop where
  table : x.table.Sound
  ranked : x.table.Ranked
  accounted : x.table.Accounted
  waiters : ∀ i, (x.table.slotAt i).waiters = x.blocked.countP fun w => w.caller.slot = i
  pinned : ∀ w ∈ x.blocked, x.table.Pins w.caller

namespace Sound

variable {x y : Scene}

/-- A slot without callers is nobody's. -/
theorem slot_ne (h : x.Sound) {w : Waiter} (hw : w ∈ x.blocked) {i : Nat}
    (hi : (x.table.slotAt i).waiters = 0) : w.caller.slot ≠ i := by
  intro he
  rw [h.waiters, Multiset.countP_eq_zero] at hi
  exact hi w hw he

theorem waiters_pos (h : x.Sound) {w : Waiter} (hw : w ∈ x.blocked) :
    (x.table.slotAt w.caller.slot).waiters ≠ 0 := fun h0 => h.slot_ne hw h0 rfl

theorem of_continues (h : x.Sound) (hc : x.table.Continues y.table)
    (hk : (y.table.slotAt 0).killed = false)
    (hw : ∀ i, (y.table.slotAt i).waiters = y.blocked.countP fun w => w.caller.slot = i)
    (hp : ∀ w ∈ y.blocked, x.table.Pins w.caller) : y.Sound :=
  ⟨h.table.continues hc hk, h.ranked.continues hc, h.accounted.continues hc, hw,
    fun w hmem => hc.pins (hp w hmem)⟩

/-- A slot that is rewritten without touching the mark keeps the adopter unmarked. -/
private theorem unkilled_modify (h : x.table.Sound) {i : Nat} {f : Slot → Slot}
    (hi : i < x.table.capacity)
    (hk : (f (x.table.slotAt i)).killed = (x.table.slotAt i).killed) :
    ((x.table.modifySlot i f).slotAt 0).killed = false := by
  rw [Table.modifySlot_congr (g := Slot.killed) hi hk]
  exact h.adopter.unkilled

private theorem take (h : x.Sound) {i : Nat} {parent : Pid} (hfree : x.table.freeSlot? = some i)
    (hliving : x.table.Living parent) :
    Sound ⟨{ x.kernel with table := x.table.fill i parent }, x.blocked, x.owed⟩ := by
  obtain ⟨hi, hu, -⟩ := Table.freeSlot?_eq_some.mp hfree
  have hfresh := h.accounted.issue_fresh h.table hi hu
  have hempty : (x.table.slotAt i).waiters = 0 := by
    rw [(h.table.slots i).blank hu]
    rfl
  refine ⟨h.table.take hi hu hfresh.unheld hliving, h.ranked.take h.table hi hfresh.unheld hliving,
    h.accounted.take h.table hi hu, fun j => ?_, fun w hw => ?_⟩
  · rw [← h.waiters j]
    show ((x.table.take _ _ _ _).slotAt j).waiters = _
    rw [Table.slotAt_take hi]
    split
    · rename_i hij
      rw [← hij, hempty]
      rfl
    · rfl
  · refine (h.pinned w hw).congr ?_
    show (x.table.take _ _ _ _).slotAt _ = _
    rw [Table.slotAt_take hi, if_neg (h.slot_ne hw hempty).symm]

private theorem fall (h : x.Sound) {i : Nat} {p : Pid} {code : ExitCode} {debts : List Nat}
    (hp : (x.table.slotAt i).holds p = true) (hne : p ≠ x.table.adopter) :
    Sound ⟨{ x.kernel with table := x.table.fall i p code }, x.blocked, debts ++ x.owed⟩ := by
  have hi := Table.lt_capacity_of_holds hp
  refine ⟨h.table.fall h.ranked hp hne, h.ranked.fall hp, h.accounted.fall h.ranked hp,
    fun j => ?_, fun w hw => ?_⟩
  · rw [← h.waiters j]
    show ((x.table.fall i p code).slotAt j).waiters = _
    by_cases hij : i = j
    · subst hij
      rw [h.ranked.slotAt_fall_self hp]
    · rw [Table.slotAt_fall_eq hi hij]
  · obtain ⟨hholds, hused⟩ := h.pinned w hw
    refine ⟨by rwa [← h.ranked.holds_fall hp] at hholds, ?_⟩
    show ((x.table.fall i p code).slotAt w.caller.slot).status ≠ _
    by_cases hij : i = w.caller.slot
    · rw [← hij, h.ranked.slotAt_fall_self hp]
      exact fun hu => nomatch hu
    · rwa [Table.slotAt_fall_eq hi hij]

private theorem drop (h : x.Sound) {i : Nat} {p : Pid} (hp : (x.table.slotAt i).holds p = true)
    (hz : (x.table.slotAt i).isZombie = true) (hempty : (x.table.slotAt i).waiters = 0) :
    Sound ⟨{ x.kernel with table := x.table.vacate i p }, x.blocked, x.owed⟩ := by
  have hi := Table.lt_capacity_of_holds hp
  refine ⟨h.table.drop hz, h.ranked.drop hi, h.accounted.drop h.table hp hz, fun j => ?_,
    fun w hw => ?_⟩
  · rw [← h.waiters j]
    show ((x.table.drop i _).slotAt j).waiters = _
    rw [Table.slotAt_drop hi]
    split
    · rename_i hij
      rw [← hij, hempty]
      rfl
    · rfl
  · refine (h.pinned w hw).congr ?_
    show (x.table.drop i _).slotAt _ = _
    rw [Table.slotAt_drop hi, if_neg (h.slot_ne hw hempty).symm]

/-- Every move leads from a sound scene to a sound scene. -/
theorem move {ds : List Deed} (h : x.Sound) (hm : Move x ds y) : y.Sound := by
  cases hm with
  | @ease _ i f inUse goes killed waiters =>
    have hi := Table.lt_capacity_of_inUse inUse
    refine h.of_continues (.modifySlot hi goes) (unkilled_modify h.table hi killed) (fun j => ?_)
      h.pinned
    rw [← h.waiters j]
    exact Table.modifySlot_congr (g := Slot.waiters) hi waiters j
  | @mark _ i alive other =>
    have hu := Slot.inUse_of_alive alive
    have hi := Table.lt_capacity_of_inUse hu
    refine h.of_continues (.modifySlot hi (.mark alive)) ?_ (fun j => ?_) h.pinned
    · show ((x.table.modifySlot i _).slotAt 0).killed = false
      rw [Table.slotAt_modifySlot hi, if_neg other, h.table.adopter.unkilled]
    · rw [← h.waiters j]
      exact Table.modifySlot_congr (f := fun s => { s with killed := true }) (g := Slot.waiters) hi
        rfl j
  | take free living => exact h.take free living
  | fall holds alive other self parent adopter => exact h.fall holds other
  | @wake k blocked i owed =>
    refine h.of_continues (k.continues_wake i) ?_ (fun j => ?_) h.pinned
    · show ((k.wake i).table.slotAt 0).killed = false
      rw [(k.slotAt_wake i 0).1]
      exact h.table.adopter.unkilled
    · show ((k.wake i).table.slotAt j).waiters = _
      rw [(k.slotAt_wake i j).2]
      exact h.waiters j
  | drop remains zombie empty parent code_eq => exact h.drop remains zombie empty
  | @leave k w blocked owed f debts goes killed waiters parent =>
    have hi : w.caller.slot < k.table.capacity :=
      Table.lt_capacity_of_waiters (by rw [waiters]; omega)
    refine h.of_continues (.modifySlot hi goes) (unkilled_modify h.table hi killed) (fun j => ?_)
      fun v hv => h.pinned v (Multiset.mem_cons_of_mem hv)
    have hw := h.waiters j
    change (k.table.slotAt j).waiters = _ at hw
    show ((k.table.modifySlot _ f).slotAt j).waiters =
      blocked.countP fun w => w.caller.slot = j
    rw [Table.slotAt_modifySlot hi]
    rw [Multiset.countP_cons] at hw
    split
    · rename_i hij
      rw [if_pos hij, ← hij, waiters] at hw
      rw [← hij]
      omega
    · rename_i hij
      rwa [if_neg hij, Nat.add_zero] at hw
  | @rest _ c f holds alive unkilled pending goes killed waiters =>
    have hi := Table.lt_capacity_of_holds holds
    refine h.of_continues (.modifySlot hi goes) (unkilled_modify h.table hi killed) (fun j => ?_)
      fun v hv => ?_
    · have hw := h.waiters j
      show ((x.table.modifySlot c.slot f).slotAt j).waiters = _
      rw [Table.slotAt_modifySlot hi, Multiset.countP_cons, ← hw]
      split
      · rename_i hij
        rw [waiters, hij]
      · rfl
    · rcases Multiset.mem_cons.mp hv with rfl | hv
      · refine ⟨holds, fun hu => ?_⟩
        change (x.table.slotAt c.slot).status = _ at hu
        simp [hu, Status.isAlive] at alive
      · exact h.pinned v hv

theorem moves {ds : List Deed} (h : x.Sound) (hm : Moves x ds y) : y.Sound :=
  hm.keep (fun hx => hx.move) h

end Sound

end Scene

end Lifecycle
