import Lifecycle.Proofs.Kernel.Integrity
/-!
# What an act does to the processes

At most one process per act is created, ends or is collected. All others stay where they are in the
table and in their lives, although they may be handed over, wake up or fall asleep. The act tells
what it did, and it did what it tells.
-/

namespace Lifecycle

/-- A slot stays in use by the same process, before its end or after it. -/
structure Slot.Stays (s s' : Slot) : Prop where
  pid : s'.pid = s.pid
  inUse : s'.inUse = s.inUse
  isZombie : s'.isZombie = s.isZombie
  exitCode : s'.exitCode = s.exitCode

namespace Slot

variable {s s' s'' : Slot}

theorem Stays.refl (s : Slot) : s.Stays s := ⟨rfl, rfl, rfl, rfl⟩

theorem Stays.trans (h : s.Stays s') (h' : s'.Stays s'') : s.Stays s'' :=
  ⟨h'.pid.trans h.pid, h'.inUse.trans h.inUse, h'.isZombie.trans h.isZombie,
    h'.exitCode.trans h.exitCode⟩

theorem Stays.holds (h : s.Stays s') (p : Pid) : s'.holds p = s.holds p := by
  simp only [Slot.holds, h.inUse, h.pid]

theorem Continues.stays (h : s.Continues s') : s.Stays s' :=
  ⟨h.pid, h.inUse, h.isZombie, h.exitCode⟩

end Slot

namespace Table

/-- How a table turns into another one when an act does a deed, or none: one slot changes as the
deed says, and the others stay. -/
def Turn (t : Table) (d : Option Deed) (t' : Table) : Prop :=
  match d with
  | none => ∀ j, (t.slotAt j).Stays (t'.slotAt j)
  | some (.born p) => ∃ i, (t.slotAt i).inUse = false ∧
      (t'.slotAt i).holds p = true ∧ (t'.slotAt i).isZombie = false ∧
      ∀ j, i ≠ j → (t.slotAt j).Stays (t'.slotAt j)
  | some (.ended p code) => ∃ i, (t.slotAt i).holds p = true ∧ (t.slotAt i).isZombie = false ∧
      (t'.slotAt i).holds p = true ∧ (t'.slotAt i).isZombie = true ∧
      (t'.slotAt i).exitCode = some code ∧
      ∀ j, i ≠ j → (t.slotAt j).Stays (t'.slotAt j)
  | some (.collected q p code) => ∃ i, (t.slotAt i).holds p = true ∧
      (t.slotAt i).isZombie = true ∧ (t.slotAt i).exitCode = some code ∧
      (t.slotAt i).parent = some q ∧ (t'.slotAt i).inUse = false ∧
      ∀ j, i ≠ j → (t.slotAt j).Stays (t'.slotAt j)

variable {t t' u u' : Table}

/-- Processes may go on before and after the deed. -/
theorem Turn.surround {d : Option Deed} (h : u.Turn d u') (hb : t.Continues u)
    (ha : u'.Continues t') : t.Turn d t' := by
  have hrest : ∀ {j : Nat}, (u.slotAt j).Stays (u'.slotAt j) →
      (t.slotAt j).Stays (t'.slotAt j) :=
    fun {j} hj => ((hb.slots j).stays.trans hj).trans (ha.slots j).stays
  cases d with
  | none => exact fun j => hrest (h j)
  | some d =>
    cases d with
    | born p =>
      obtain ⟨i, hfree, hp, hz, hstay⟩ := h
      have hafter := (ha.slots i).stays
      exact ⟨i, (hb.slots i).inUse.symm.trans hfree, (hafter.holds p).trans hp,
        hafter.isZombie.trans hz, fun j hj => hrest (hstay j hj)⟩
    | ended p code =>
      obtain ⟨i, hp, hz, hp', hz', hcode, hstay⟩ := h
      have hbefore := hb.slots i
      have hafter := (ha.slots i).stays
      exact ⟨i, (hbefore.holds p).symm.trans hp, hbefore.isZombie.symm.trans hz,
        (hafter.holds p).trans hp', hafter.isZombie.trans hz', hafter.exitCode.trans hcode,
        fun j hj => hrest (hstay j hj)⟩
    | collected q p code =>
      obtain ⟨i, hp, hz, hcode, hparent, hgone, hstay⟩ := h
      have hbefore := hb.slots i
      exact ⟨i, (hbefore.holds p).symm.trans hp, hbefore.isZombie.symm.trans hz,
        hbefore.exitCode.symm.trans hcode, hbefore.parent.symm.trans hparent,
        (ha.slots i).inUse.trans hgone, fun j hj => hrest (hstay j hj)⟩

end Table

namespace Scene

variable {x y : Scene}

/-- A move that does a deed turns the table accordingly. -/
theorem Move.turn (h : x.Sound) {d : Deed} (hm : Move x [d] y) : x.table.Turn (some d) y.table := by
  generalize hds : [d] = ds at hm
  cases hm with
  | @take _ i parent free living =>
    obtain rfl := List.singleton_inj.mp hds
    obtain ⟨hi, hfree, -⟩ := Table.freeSlot?_eq_some.mp free
    have hslot : ∀ j, (x.table.fill i parent).slotAt j =
        if i = j then .taken x.table.pool.issue.1 parent else x.table.slotAt j :=
      Table.slotAt_take hi
    have hself := hslot i
    rw [if_pos rfl] at hself
    refine ⟨i, hfree, ?_, ?_, fun j hij => ?_⟩
    · show ((x.table.take _ _ _ _).slotAt i).holds _ = true
      rw [hself, Slot.holds_taken]
    · show ((x.table.take _ _ _ _).slotAt i).isZombie = false
      rw [hself]
      rfl
    · show (x.table.slotAt j).Stays ((x.table.take _ _ _ _).slotAt j)
      rw [hslot, if_neg hij]
      exact .refl _
  | @fall _ i p code debts holds alive other self parent adopter =>
    obtain rfl := List.singleton_inj.mp hds
    have hself : (x.table.fall i p code).slotAt i = _ := h.ranked.slotAt_fall_self holds
    refine ⟨i, holds, Slot.not_zombie_of_alive alive, ?_, ?_, ?_, fun j hij => ?_⟩
    · exact (h.ranked.holds_fall holds i p).trans holds
    · show ((x.table.fall i p code).slotAt i).isZombie = true
      rw [hself]
      rfl
    · show ((x.table.fall i p code).slotAt i).exitCode = some code
      rw [hself]
    · show (x.table.slotAt j).Stays ((x.table.fall i p code).slotAt j)
      rw [Table.slotAt_fall_eq (Table.lt_capacity_of_holds holds) hij]
      exact ⟨rfl, rfl, rfl, rfl⟩
  | @drop _ i p q code remains zombie empty parent code_eq =>
    obtain rfl := List.singleton_inj.mp hds
    have hslot : ∀ j, (x.table.vacate i p).slotAt j =
        if i = j then .blank else x.table.slotAt j :=
      Table.slotAt_drop (Table.lt_capacity_of_holds remains)
    refine ⟨i, remains, zombie, code_eq, parent, ?_, fun j hij => ?_⟩
    · show ((x.table.drop i _).slotAt i).inUse = false
      rw [hslot, if_pos rfl]
      rfl
    · show (x.table.slotAt j).Stays ((x.table.drop i _).slotAt j)
      rw [hslot, if_neg hij]
      exact .refl _
  | _ => simp at hds

theorem Moves.turn (h : x.Sound) {d : Option Deed} (hm : Moves x d.toList y) :
    x.table.Turn d y.table := by
  cases d with
  | none => exact fun j => (hm.continues.slots j).stays
  | some d =>
    obtain ⟨x', y', hx, hd, hy⟩ := Moves.split hm
    exact (hd.turn (h.moves hx)).surround hx.continues hy.continues

end Scene

/-- An act turns the table as it tells. -/
theorem Session.turn_act {s : Session} (h : s.scene.Sound) (a : Act) :
    s.kernel.table.Turn (s.deed? a) (s.act a).kernel.table :=
  (Session.moves_act h a).turn h

/-! ## The number of processes -/

namespace Table

variable {t t' : Table}

private theorem countP_slots (t : Table) (f : Slot → Bool) :
    t.slots.countP f = ((Finset.range t.capacity).filter fun i => f (t.slotAt i) = true).card := by
  have hslots : t.slots = (List.range t.capacity).map t.slotAt := by
    refine List.ext_getElem (by simp [capacity]) fun i hi _ => ?_
    rw [List.getElem_map, List.getElem_range, slotAt_getElem hi]
  rw [hslots, List.countP_map, List.countP_eq_length_filter]
  simp [Finset.card, Finset.filter, Multiset.range, Function.comp_def]

theorem countP_congr {f : Slot → Bool} (hc : t'.capacity = t.capacity)
    (h : ∀ j, f (t'.slotAt j) = f (t.slotAt j)) : t'.slots.countP f = t.slots.countP f := by
  simp only [countP_slots, hc, h]

/-- A table in which one more slot counts has one more of that kind. -/
theorem countP_succ {f : Slot → Bool} {i : Nat} (hc : t'.capacity = t.capacity)
    (hi : i < t.capacity) (hfree : f (t.slotAt i) = false)
    (hu : f (t'.slotAt i) = true) (hrest : ∀ j, i ≠ j → f (t'.slotAt j) = f (t.slotAt j)) :
    t'.slots.countP f = t.slots.countP f + 1 := by
  rw [countP_slots, countP_slots, hc]
  have hinsert : ((Finset.range t.capacity).filter fun j => f (t'.slotAt j) = true) =
      insert i ((Finset.range t.capacity).filter fun j => f (t.slotAt j) = true) := by
    ext j
    simp only [Finset.mem_filter, Finset.mem_range, Finset.mem_insert]
    by_cases hij : i = j
    · subst hij
      simp [hi, hu]
    · rw [hrest j hij]
      simp [Ne.symm hij]
  rw [hinsert, Finset.card_insert_of_notMem (by simp [hfree])]

theorem liveCount_congr (hc : t'.capacity = t.capacity)
    (h : ∀ j, (t'.slotAt j).inUse = (t.slotAt j).inUse) : t'.liveCount = t.liveCount :=
  countP_congr hc h

/-- A table in which one more slot is in use has one more process. -/
theorem liveCount_succ {i : Nat} (hc : t'.capacity = t.capacity)
    (hfree : (t.slotAt i).inUse = false) (hu : (t'.slotAt i).inUse = true)
    (hrest : ∀ j, i ≠ j → (t'.slotAt j).inUse = (t.slotAt j).inUse) :
    t'.liveCount = t.liveCount + 1 :=
  countP_succ hc (hc ▸ lt_capacity_of_inUse hu) hfree hu hrest

theorem liveCount_boot {config : Config} (h : boot config = .ok t) : t.liveCount = 1 := by
  rw [boot] at h
  split at h
  · simp at h
  · obtain rfl := Except.ok.inj h
    simp [liveCount, List.countP_replicate, Slot.inUse]

end Table

/-- Whether a deed created a process. -/
def Deed.isBirth : Deed → Bool
  | born _ => true
  | ended _ _ | collected _ _ _ => false

/-- Whether a deed collected a process. -/
def Deed.isCollection : Deed → Bool
  | collected _ _ _ => true
  | born _ | ended _ _ => false

/-- A process more for a birth, and one less for a collection. -/
theorem Table.Turn.liveCount {t t' : Table} {d : Option Deed} (h : t.Turn d t')
    (hc : t'.capacity = t.capacity) :
    t.liveCount + d.toList.countP Deed.isBirth =
      t'.liveCount + d.toList.countP Deed.isCollection := by
  cases d with
  | none =>
    rw [liveCount_congr hc fun j => (h j).inUse]
    rfl
  | some d =>
    cases d with
    | born p =>
      obtain ⟨i, hfree, hp, -, hrest⟩ := h
      have hcount := liveCount_succ hc hfree (Slot.holds_iff.mp hp).1 fun j hj => (hrest j hj).inUse
      simp [Deed.isBirth, Deed.isCollection, hcount]
    | ended p code =>
      obtain ⟨i, hp, -, hp', -, -, hrest⟩ := h
      have hcount := liveCount_congr hc fun j => by
        by_cases hj : i = j
        · rw [← hj, (Slot.holds_iff.mp hp').1, (Slot.holds_iff.mp hp).1]
        · exact (hrest j hj).inUse
      simp [Deed.isBirth, Deed.isCollection, hcount]
    | collected q p code =>
      obtain ⟨i, hp, -, -, -, hgone, hrest⟩ := h
      have hcount := liveCount_succ hc.symm hgone (Slot.holds_iff.mp hp).1
        fun j hj => (hrest j hj).inUse.symm
      simp [Deed.isBirth, Deed.isCollection, hcount]

end Lifecycle
