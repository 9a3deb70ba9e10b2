import Lifecycle.Proofs.Kernel.Frames
import Lifecycle.Proofs.Kernel.Turns
/-!
# How many children a process has

A process gets one more child when it creates one and one less when it collects one. When another
process ends nothing changes for it, as the children of that one go to the adopter, and the process
that ended remains a child of its parent. While a table has fewer processes than slots there is room
for another one.
-/

namespace Lifecycle

namespace Table

variable {t t' : Table} {p q parent : Pid}

/-- The number of a process's children, ended or not. -/
def kids (t : Table) (p : Pid) : Nat := t.slots.countP (·.isChildOf p)

theorem kids_congr (hc : t'.capacity = t.capacity)
    (h : ∀ j, (t'.slotAt j).isChildOf p = (t.slotAt j).isChildOf p) : t'.kids p = t.kids p :=
  countP_congr hc h

theorem kids_eq_zero (h : ∀ i, (t.slotAt i).isChildOf p = false) : t.kids p = 0 := by
  rw [kids, List.countP_eq_zero]
  intro s hs
  obtain ⟨i, hi⟩ := List.getElem?_of_mem hs
  have hchild := h i
  rw [slotAt_eq, hi] at hchild
  simpa using hchild

theorem Continues.kids (h : t.Continues t') (p : Pid) : t'.kids p = t.kids p :=
  kids_congr h.capacity fun j => (h.slots j).isChildOf p

theorem Gains.kids (h : t.Gains q parent t') (hc : t'.capacity = t.capacity) (p : Pid) :
    t'.kids p = t.kids p + if p = parent then 1 else 0 := by
  obtain ⟨-, i, space, hfree, hi, hslot⟩ := h
  have hself : (t.slotAt i).isChildOf p = false := by rw [Slot.isChildOf, hfree, Bool.false_and]
  split
  · rename_i hp
    refine countP_succ hc hi hself ?_ fun j hij => ?_
    · rw [hslot, if_pos rfl, hp]
      exact Slot.isChildOf_iff.mpr ⟨rfl, rfl⟩
    · rw [hslot, if_neg hij]
  · rename_i hp
    refine kids_congr hc fun j => ?_
    rw [hslot]
    split
    · rename_i hij
      rw [← hij, hself, Bool.eq_false_iff, ne_eq, Slot.isChildOf_iff]
      exact fun hchild => hp (Option.some.inj hchild.2).symm
    · rfl

/-- A fresh identity is nobody's parent. -/
theorem Fresh.kids (h : t.Fresh p) : t.kids p = 0 := by
  refine kids_eq_zero fun i => ?_
  rw [Bool.eq_false_iff, ne_eq, Slot.isChildOf_iff]
  exact fun hchild => h.no_parent i hchild.2

theorem liveCount_of_full (h : t.freeSlot? = none) : t.liveCount = t.capacity := by
  rw [liveCount, capacity, List.countP_eq_length]
  intro s hs
  have hfree := List.findIdx?_eq_none_iff.mp h s hs
  simpa using hfree

end Table

namespace Scene

variable {x y : Scene} {p q r : Pid} {code : ExitCode}

theorem Moves.capacity {ds : List Deed} (h : Moves x ds y) : y.table.capacity = x.table.capacity :=
  h.keep (P := fun z => z.table.capacity = x.table.capacity) (fun hz hm => hm.fixed.1.trans hz) rfl

theorem Moves.adopter {ds : List Deed} (h : Moves x ds y) : y.table.adopter = x.table.adopter :=
  h.keep (P := fun z => z.table.adopter = x.table.adopter) (fun hz hm => hm.fixed.2.trans hz) rfl

/-- Nobody else loses a child when a process ends, and only the adopter gets any. -/
theorem Moves.kids_ended (h : x.Sound) (hm : Moves x [.ended q code] y) (hq : p ≠ q)
    (ha : p ≠ x.table.adopter) : y.table.kids p = x.table.kids p := by
  obtain ⟨x', y', hx, hd, hy⟩ := hm.split
  rw [hy.continues.kids, ← hx.continues.kids]
  have hx' := h.moves hx
  cases hd with
  | @fall _ i _ _ debts holds alive other self parent adopter =>
    have hi := Table.lt_capacity_of_holds holds
    refine Table.kids_congr Table.capacity_fall fun j => ?_
    show ((x'.table.fall i q code).slotAt j).isChildOf p = _
    rw [Slot.isChildOf, hx'.ranked.inUse_fall holds, Slot.isChildOf]
    by_cases hij : i = j
    · rw [← hij, hx'.ranked.slotAt_fall_self holds]
    · rw [Table.slotAt_fall_other hi hij]
      split
      · rename_i hchild
        have hparent := (Slot.isChildOf_iff.mp hchild).2
        have hadopter : x'.table.adopter = x.table.adopter := hx.continues.adopter
        simp [hparent, hadopter, ha.symm, hq.symm]
      · rfl

/-- A parent that collects a child has one less. -/
theorem Moves.kids_collected (hm : Moves x [.collected q r code] y) (p : Pid) :
    x.table.kids p = y.table.kids p + if p = q then 1 else 0 := by
  obtain ⟨x', y', hx, hd, hy⟩ := hm.split
  rw [hy.continues.kids, ← hx.continues.kids]
  cases hd with
  | @drop _ i _ _ _ remains zombie empty parent code_eq =>
    have hi := Table.lt_capacity_of_holds remains
    have hslot : ∀ j, (x'.table.vacate i r).slotAt j =
        if i = j then .blank else x'.table.slotAt j := Table.slotAt_drop hi
    split
    · rename_i hp
      refine Table.countP_succ (Table.capacity_drop).symm (hi.trans_eq Table.capacity_drop.symm) ?_ ?_
        fun j hij => ?_
      · show ((x'.table.vacate i r).slotAt i).isChildOf p = false
        rw [hslot, if_pos rfl]
        rfl
      · rw [hp, Slot.isChildOf_iff]
        exact ⟨(Slot.holds_iff.mp remains).1, parent⟩
      · show _ = ((x'.table.vacate i r).slotAt j).isChildOf p
        rw [hslot, if_neg hij]
    · rename_i hp
      refine Table.kids_congr (Table.capacity_drop).symm fun j => ?_
      show _ = ((x'.table.vacate i r).slotAt j).isChildOf p
      rw [hslot]
      split
      · rename_i hij
        rw [← hij, Slot.isChildOf, parent]
        simp [Slot.isChildOf, Slot.blank, Slot.inUse, Ne.symm hp]
      · rfl

end Scene

end Lifecycle
