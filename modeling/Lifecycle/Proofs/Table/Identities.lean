import Lifecycle.Proofs.Table.Sound
import Mathlib.Data.Finset.Card
/-!
# Accounting for identities

The numbers that a pool has counted past, the adopter's left out, are exactly those that a process
holds and those that wait to be handed out again, and no number is both. Since the pool counts on
only when nothing has been returned, its counter stays within the capacity of the table, and taking
back the identity of a cleared slot never fails.
-/

namespace Lifecycle

namespace PidPool

theorem issue_returned {pool : PidPool} {p : Pid} {rest : List Pid}
    (h : pool.returned = p :: rest) : pool.issue = (p, { pool with returned := rest }) := by
  rw [issue, h]

theorem issue_nil {pool : PidPool} (h : pool.returned = []) :
    pool.issue = (⟨if ⟨pool.next⟩ = pool.reserved then pool.next + 1 else pool.next⟩,
      { pool with
        next := (if ⟨pool.next⟩ = pool.reserved then pool.next + 1 else pool.next) + 1 }) := by
  rw [issue, h]

theorem release?_eq_some {pool pool' : PidPool} {p : Pid} (h : pool.release? p = some pool') :
    pool' = { pool with returned := p :: pool.returned } := by
  rw [release?] at h
  split at h
  · exact (Option.some.inj h).symm
  · simp at h

end PidPool

namespace Table

/-- Every number below the pool's counter but the adopter's is held by a process or has been
returned, and never both. -/
structure Accounted (t : Table) : Prop where
  reserved : t.pool.reserved = t.adopter
  nodup : t.pool.returned.Nodup
  issued_iff : ∀ p : Pid, p.number < t.pool.next ∧ p ≠ t.adopter ↔
    p ∈ t.pool.returned ∨ ∃ i, i ≠ 0 ∧ (t.slotAt i).holds p = true
  disjoint : ∀ p ∈ t.pool.returned, ∀ i, (t.slotAt i).holds p = false
  next_le : t.pool.next ≤ t.capacity

/-- An identity for a new process: it is nobody's, nobody has it as a parent, and it is below the
capacity. -/
structure Fresh (t : Table) (p : Pid) : Prop where
  ne_adopter : p ≠ t.adopter
  unheld : ∀ j, (t.slotAt j).holds p = false
  no_parent : ∀ j, (t.slotAt j).parent ≠ some p
  lt_capacity : p.number < t.capacity

namespace Accounted

variable {t : Table} {i : Nat} {p parent : Pid}

private theorem pid_eq_iff {p q : Pid} : p = q ↔ p.number = q.number :=
  ⟨congrArg Pid.number, fun h => by cases p; cases q; simpa using h⟩

private theorem card_numbers (n a : Nat) :
    ((Finset.range n).erase a).card + (if a < n then 1 else 0) = n := by
  rw [Finset.card_erase_eq_ite]
  by_cases h : a < n
  · simp only [Finset.mem_range, h, if_true, Finset.card_range]
    omega
  · simp [h]

/-- While a slot is free and nothing has been returned, the numbers counted past fit into the slots
that are neither the adopter's nor the free one. -/
theorem next_le_of_free (h : t.Accounted) (hs : t.Sound) (hnil : t.pool.returned = [])
    (hi : i < t.capacity) (hfree : (t.slotAt i).inUse = false) :
    t.pool.next + 2 ≤ t.capacity + (if t.adopter.number < t.pool.next then 1 else 0) := by
  have h0 : i ≠ 0 := hs.ne_zero_of_free hfree
  have hheld : ∀ n ∈ (Finset.range t.pool.next).erase t.adopter.number,
      ∃ j, j ≠ 0 ∧ (t.slotAt j).holds ⟨n⟩ = true := by
    intro n hn
    obtain ⟨hne, hlt⟩ := Finset.mem_erase.mp hn
    have hissued := (h.issued_iff ⟨n⟩).mp
      ⟨Finset.mem_range.mp hlt, fun he => hne (congrArg Pid.number he)⟩
    rwa [hnil, List.mem_nil_iff, false_or] at hissued
  choose! slot hslot0 hslot using hheld
  have hcard : ((Finset.range t.pool.next).erase t.adopter.number).card ≤
      (((Finset.range t.capacity).erase 0).erase i).card := by
    apply Finset.card_le_card_of_injOn slot
    · intro n hn
      have hn' := hslot n hn
      exact Finset.mem_erase.mpr ⟨(ne_of_free hfree (Slot.holds_iff.mp hn').1).symm,
        Finset.mem_erase.mpr ⟨hslot0 n hn, Finset.mem_range.mpr (lt_capacity_of_holds hn')⟩⟩
    · intro n hn m hm heq
      have hm' := hslot m hm
      rw [← heq] at hm'
      exact congrArg Pid.number (Slot.holds_inj (hslot n hn) hm')
  have hsource := card_numbers t.pool.next t.adopter.number
  rw [Finset.card_erase_of_mem (Finset.mem_erase.mpr ⟨h0, Finset.mem_range.mpr hi⟩),
    Finset.card_erase_of_mem (Finset.mem_range.mpr hs.capacity_pos), Finset.card_range] at hcard
  omega

private theorem reserved_iff (h : t.Accounted) :
    ⟨t.pool.next⟩ = t.pool.reserved ↔ t.adopter.number = t.pool.next := by
  rw [h.reserved, pid_eq_iff]
  exact eq_comm

theorem no_parent_of_unheld (hs : t.Sound) (hp : ∀ j, (t.slotAt j).holds p = false) (j : Nat) :
    (t.slotAt j).parent ≠ some p := by
  intro hparent
  obtain ⟨m, hm, -⟩ := hs.parent_holds (hs.inUse_of_parent hparent) hparent
  rw [hp m] at hm
  simp at hm

/-- A number the pool has not counted past is held by nobody but perhaps the adopter. -/
theorem unheld_of_next_le (h : t.Accounted) (hs : t.Sound) (hne : p ≠ t.adopter)
    (hle : t.pool.next ≤ p.number) (j : Nat) : (t.slotAt j).holds p = false := by
  by_contra hj
  rw [Bool.not_eq_false] at hj
  have hj0 : j ≠ 0 := fun hz => hne ((hs.eq_zero_iff hj).mp hz)
  have hlt := ((h.issued_iff p).mpr (.inr ⟨j, hj0, hj⟩)).1
  omega

/-- What the pool hands out while a slot is free is fresh. -/
theorem issue_fresh (h : t.Accounted) (hs : t.Sound) (hi : i < t.capacity)
    (hfree : (t.slotAt i).inUse = false) : Fresh t t.pool.issue.1 := by
  cases hret : t.pool.returned with
  | cons q rest =>
    rw [PidPool.issue_returned hret]
    have hmem : q ∈ t.pool.returned := by simp [hret]
    have hissued := (h.issued_iff q).mpr (.inl hmem)
    have hun := h.disjoint q hmem
    exact ⟨hissued.2, hun, no_parent_of_unheld hs hun, hissued.1.trans_le h.next_le⟩
  | nil =>
    rw [PidPool.issue_nil hret]
    have hroom := h.next_le_of_free hs hret hi hfree
    simp only [h.reserved_iff]
    have hne : (⟨if t.adopter.number = t.pool.next then t.pool.next + 1 else t.pool.next⟩ : Pid) ≠
        t.adopter := by
      intro he
      have hn := congrArg Pid.number he
      dsimp only at hn
      split at hn <;> omega
    have hun := h.unheld_of_next_le hs hne (by dsimp only; split <;> omega)
    refine ⟨hne, hun, no_parent_of_unheld hs hun, ?_⟩
    dsimp only
    split
    · rename_i heq
      rw [if_neg (by omega)] at hroom
      omega
    · split at hroom <;> omega

theorem continues {t' : Table} (h : t.Accounted) (hc : t.Continues t') : t'.Accounted where
  reserved := by rw [hc.pool, hc.adopter, h.reserved]
  nodup := by rw [hc.pool]; exact h.nodup
  issued_iff := fun p => by
    simp only [hc.pool, hc.adopter, (hc.slots _).holds]
    exact h.issued_iff p
  disjoint := fun p hp i => by
    rw [hc.pool] at hp
    rw [(hc.slots i).holds]
    exact h.disjoint p hp i
  next_le := by rw [hc.pool, hc.capacity]; exact h.next_le

theorem fall {code : ExitCode} (h : t.Accounted) (hr : t.Ranked)
    (hp : (t.slotAt i).holds p = true) : (t.fall i p code).Accounted where
  reserved := h.reserved
  nodup := h.nodup
  issued_iff := fun q => by
    simp only [hr.holds_fall hp]
    exact h.issued_iff q
  disjoint := fun q hq j => by
    rw [hr.holds_fall hp]
    exact h.disjoint q hq j
  next_le := by rw [capacity_fall]; exact h.next_le

/-- Who holds a number after a slot has been taken for it. -/
private theorem exists_holds_take {pool : PidPool} (hi : i < t.capacity) (h0 : i ≠ 0)
    (hfree : (t.slotAt i).inUse = false) (q : Pid) :
    (∃ j, j ≠ 0 ∧ ((t.take i p parent pool).slotAt j).holds q = true) ↔
      q = p ∨ ∃ j, j ≠ 0 ∧ (t.slotAt j).holds q = true := by
  constructor
  · intro hx
    obtain ⟨j, hj0, hj⟩ := hx
    rw [slotAt_take hi] at hj
    split at hj
    · exact .inl (Slot.holds_taken.mp hj).symm
    · exact .inr ⟨j, hj0, hj⟩
  · intro h
    rcases h with rfl | ⟨j, hj0, hj⟩
    · exact ⟨i, h0, by rw [slotAt_take hi, if_pos rfl, Slot.holds_taken]⟩
    · exact ⟨j, hj0, by rwa [slotAt_take hi, if_neg (ne_of_free hfree (Slot.holds_iff.mp hj).1)]⟩

theorem take (h : t.Accounted) (hs : t.Sound) (hi : i < t.capacity)
    (hfree : (t.slotAt i).inUse = false) : (t.fill i parent).Accounted := by
  have h0 : i ≠ 0 := hs.ne_zero_of_free hfree
  have hfresh := h.issue_fresh hs hi hfree
  cases hret : t.pool.returned with
  | cons q rest =>
    rw [fill, PidPool.issue_returned hret]
    have hnodup := h.nodup
    rw [hret] at hnodup
    obtain ⟨hq, hrest⟩ := List.nodup_cons.mp hnodup
    refine ⟨h.reserved, hrest, fun r => ?_, fun r hr j => ?_, ?_⟩
    · rw [exists_holds_take hi h0 hfree]
      show r.number < t.pool.next ∧ r ≠ t.adopter ↔ r ∈ rest ∨ _
      rw [h.issued_iff r, hret, List.mem_cons, or_left_comm, or_assoc]
    · rw [slotAt_take hi]
      split
      · rw [Bool.eq_false_iff, ne_eq, Slot.holds_taken]
        intro heq
        subst heq
        exact hq hr
      · exact h.disjoint r (by rw [hret]; exact List.mem_cons_of_mem _ hr) j
    · rw [capacity_take]
      exact h.next_le
  | nil =>
    rw [PidPool.issue_nil hret] at hfresh
    rw [fill, PidPool.issue_nil hret]
    refine ⟨h.reserved, h.nodup, fun r => ?_, fun r hr => ?_, ?_⟩
    · rw [exists_holds_take hi h0 hfree]
      have hold := h.issued_iff r
      simp only [hret, List.not_mem_nil, false_or] at hold
      show r.number < (if _ then _ else _) + 1 ∧ r ≠ t.adopter ↔ r ∈ t.pool.returned ∨ _
      simp only [← hold, hret, h.reserved_iff, List.not_mem_nil, false_or, pid_eq_iff, ne_eq]
      by_cases heq : t.adopter.number = t.pool.next
      · rw [if_pos heq]
        omega
      · rw [if_neg heq]
        omega
    · change r ∈ t.pool.returned at hr
      rw [hret] at hr
      simp at hr
    · rw [capacity_take]
      exact hfresh.lt_capacity

/-- The identity of a cleared zombie is taken back. -/
theorem exists_clear? (h : t.Accounted) (hs : t.Sound) (hp : (t.slotAt i).holds p = true)
    (hz : (t.slotAt i).isZombie = true) : ∃ t', t.clear? i p = some t' := by
  have h0 : i ≠ 0 := hs.ne_zero_of_zombie hz
  obtain ⟨hlt, hne⟩ := (h.issued_iff p).mpr (.inr ⟨i, h0, hp⟩)
  have hout : p ∉ t.pool.returned := by
    intro hmem
    rw [h.disjoint p hmem i] at hp
    simp at hp
  rw [← h.reserved] at hne
  rw [clear?, if_pos ⟨by rw [Slot.isZombie_iff.mp hz]; rfl, hs.childSlots_of_zombie hp hz⟩,
    PidPool.release?, if_pos ⟨hlt, hne, hout⟩]
  exact ⟨_, rfl⟩

theorem drop (h : t.Accounted) (hs : t.Sound) (hp : (t.slotAt i).holds p = true)
    (hz : (t.slotAt i).isZombie = true) : (t.vacate i p).Accounted := by
  have h0 : i ≠ 0 := hs.ne_zero_of_zombie hz
  have hi := lt_capacity_of_holds hp
  have hslot : ∀ j, (t.vacate i p).slotAt j = if i = j then .blank else t.slotAt j :=
    slotAt_drop hi
  -- The slot held nobody else, and nobody else is held elsewhere under this identity.
  have hkeep : ∀ {q : Pid} {j : Nat}, q ≠ p →
      ((t.vacate i p).slotAt j).holds q = (t.slotAt j).holds q := by
    intro q j hq
    rw [hslot]
    split
    · rename_i hij
      rw [← hij, Slot.holds_blank, eq_comm, Bool.eq_false_iff]
      exact fun hj => hq (Slot.holds_inj hj hp)
    · rfl
  have hgone : ∀ j, ((t.vacate i p).slotAt j).holds p = false := by
    intro j
    rw [hslot]
    split
    · rfl
    · rename_i hij
      rw [Bool.eq_false_iff]
      exact fun hj => hij (hs.holds_unique i j p hp hj)
  refine ⟨h.reserved, ?_, fun q => ?_, fun q hq j => ?_, ?_⟩
  · refine List.nodup_cons.mpr ⟨fun hmem => ?_, h.nodup⟩
    rw [h.disjoint p hmem i] at hp
    simp at hp
  · show q.number < t.pool.next ∧ q ≠ t.adopter ↔ q ∈ p :: t.pool.returned ∨ _
    rw [h.issued_iff q, List.mem_cons]
    by_cases hq : q = p
    · subst hq
      simp only [true_or, iff_true]
      exact .inr ⟨i, h0, hp⟩
    · simp only [hq, hkeep hq, false_or]
  · by_cases hqp : q = p
    · rw [hqp, hgone]
    · rw [hkeep hqp]
      exact h.disjoint q ((List.mem_cons.mp hq).resolve_left hqp) j
  · rw [capacity_drop]
    exact h.next_le

theorem boot {config : Config} (h : Table.boot config = .ok t) : t.Accounted := by
  obtain ⟨hpos, hcap, hadopter, hpool, h0, hrest⟩ := boot_eq_ok h
  refine ⟨by rw [hpool, hadopter]; rfl, by rw [hpool]; exact List.nodup_nil, fun p => ?_,
    fun p hp => ?_, by rw [hpool]; exact Nat.zero_le _⟩
  · rw [hpool]
    simp only [PidPool.fresh, Nat.not_lt_zero, false_and, List.not_mem_nil, false_or, false_iff]
    intro hx
    obtain ⟨i, hi, hp⟩ := hx
    simp [hrest i hi] at hp
  · rw [hpool] at hp
    simp [PidPool.fresh] at hp

end Accounted

end Table

end Lifecycle
