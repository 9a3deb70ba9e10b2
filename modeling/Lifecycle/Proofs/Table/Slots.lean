import Lifecycle.Table.Basic
import Mathlib.Data.List.Nodup
/-!
# Slots and searches

What the slots of a table are after each way of writing to it, and what each search through the
slots finds. A slot is spoken of by its index; past the end every slot is blank.
-/

namespace Lifecycle

namespace Slot

theorem inUse_iff {s : Slot} : s.inUse = true ↔ s.status ≠ .unused := by simp [inUse]

theorem isZombie_iff {s : Slot} : s.isZombie = true ↔ s.status = .zombie := by simp [isZombie]

theorem holds_iff {s : Slot} {p : Pid} : s.holds p = true ↔ s.inUse = true ∧ s.pid = some p := by
  simp [holds]

theorem isChildOf_iff {s : Slot} {p : Pid} :
    s.isChildOf p = true ↔ s.inUse = true ∧ s.parent = some p := by simp [isChildOf]

@[simp] theorem inUse_blank : blank.inUse = false := rfl
@[simp] theorem holds_blank (p : Pid) : blank.holds p = false := rfl
@[simp] theorem isChildOf_blank (p : Pid) : blank.isChildOf p = false := rfl
@[simp] theorem status_blank : blank.status = .unused := rfl
@[simp] theorem pid_blank : blank.pid = none := rfl
@[simp] theorem parent_blank : blank.parent = none := rfl

theorem holds_inj {s : Slot} {p q : Pid} (hp : s.holds p = true) (hq : s.holds q = true) :
    p = q := by
  have h := (holds_iff.mp hp).2
  rw [(holds_iff.mp hq).2] at h
  exact (Option.some.inj h).symm

theorem inUse_of_alive {s : Slot} (h : s.status.isAlive = true) : s.inUse = true := by
  rw [inUse_iff]
  intro hu
  simp [hu, Status.isAlive] at h

theorem not_zombie_of_alive {s : Slot} (h : s.status.isAlive = true) : s.isZombie = false := by
  simp only [isZombie, decide_eq_false_iff_not]
  intro hz
  simp [hz, Status.isAlive] at h

theorem inUse_of_zombie {s : Slot} (h : s.isZombie = true) : s.inUse = true := by
  rw [inUse_iff, isZombie_iff.mp h]
  decide

theorem matching?_eq_some {s : Slot} {parent p : Pid} {target : Target} :
    s.matching? parent target = some p ↔
      s.isChildOf parent = true ∧ s.pid = some p ∧ target.matches p = true := by
  rw [matching?]
  split <;> simp_all [Option.filter_eq_some_iff]

theorem parent_of_matching? {s : Slot} {parent p : Pid} {target : Target}
    (h : s.matching? parent target = some p) : s.parent = some parent :=
  (isChildOf_iff.mp (matching?_eq_some.mp h).1).2

theorem holds_of_matching? {s : Slot} {parent p : Pid} {target : Target}
    (h : s.matching? parent target = some p) : s.holds p = true := by
  obtain ⟨hchild, hpid, -⟩ := matching?_eq_some.mp h
  exact holds_iff.mpr ⟨(isChildOf_iff.mp hchild).1, hpid⟩

/-- What can be collected is a zombie child on whose behalf nobody is blocked. -/
theorem remains?_eq_some {s : Slot} {parent p : Pid} {target : Target} {code : ExitCode} :
    s.remains? parent target = some (p, code) ↔
      s.matching? parent target = some p ∧ s.waiters = 0 ∧ s.isZombie = true ∧
        s.exitCode = some code := by
  rw [remains?]
  cases hm : s.matching? parent target with
  | none => simp
  | some q =>
    by_cases hz : s.waiters = 0 ∧ s.isZombie = true
    · simp only [hz, decide_true, Bool.and_self, if_true, Option.map_eq_some_iff, Prod.mk.injEq,
        Option.some.injEq, true_and]
      constructor
      · intro hx
        obtain ⟨c, hc, rfl, rfl⟩ := hx
        exact ⟨rfl, hc⟩
      · intro hx
        obtain ⟨rfl, hc⟩ := hx
        exact ⟨code, hc, rfl, rfl⟩
    · have hz' : (decide (s.waiters = 0) && s.isZombie) = false := by
        rw [Bool.eq_false_iff]
        simpa using hz
      simp only [hz', Bool.false_eq_true, if_false, reduceCtorEq, false_iff]
      intro hx
      obtain ⟨-, hw, hzombie, -⟩ := hx
      exact hz ⟨hw, hzombie⟩

/-! ## Waking -/

/-- Waking changes nothing but the status of a process that sleeps. -/
theorem rouse_eq (s : Slot) :
    s.rouse = { s with status := if s.status = .sleeping then .runnable else s.status } := by
  rw [rouse]
  by_cases h : s.status = .sleeping
  · rw [if_pos h, if_pos h]
  · rw [if_neg h, if_neg h]

@[simp] theorem killed_rouse (s : Slot) : s.rouse.killed = s.killed := by
  rw [rouse_eq]

@[simp] theorem waiters_rouse (s : Slot) : s.rouse.waiters = s.waiters := by
  rw [rouse_eq]

@[simp] theorem pid_rouse (s : Slot) : s.rouse.pid = s.pid := by
  rw [rouse_eq]

@[simp] theorem parent_rouse (s : Slot) : s.rouse.parent = s.parent := by
  rw [rouse_eq]

@[simp] theorem exitCode_rouse (s : Slot) : s.rouse.exitCode = s.exitCode := by
  rw [rouse_eq]

@[simp] theorem inUse_rouse (s : Slot) : s.rouse.inUse = s.inUse := by
  rw [rouse]
  split <;> simp_all [inUse]

@[simp] theorem isZombie_rouse (s : Slot) : s.rouse.isZombie = s.isZombie := by
  rw [rouse]
  split <;> simp_all [isZombie]

@[simp] theorem rouse_rouse (s : Slot) : s.rouse.rouse = s.rouse := by
  by_cases h : s.status = .sleeping <;> simp [rouse, h]

theorem rouse_of_zombie {s : Slot} (h : s.isZombie = true) : s.rouse = s := by
  simp [rouse, isZombie_iff.mp h]

end Slot

namespace Table

variable {t : Table}

/-! ## Reading slots -/

theorem slotAt_eq (t : Table) (i : Nat) : t.slotAt i = (t.slots[i]?).getD .blank := by
  rw [slotAt, List.getD_eq_getElem?_getD]

theorem slotAt_getElem {i : Nat} (h : i < t.slots.length) : t.slotAt i = t.slots[i] := by
  simp [slotAt_eq, h]

theorem slotAt_of_le {i : Nat} (h : t.capacity ≤ i) : t.slotAt i = .blank := by
  rw [slotAt_eq, List.getElem?_eq_none h]
  rfl

theorem lt_capacity_of_inUse {i : Nat} (h : (t.slotAt i).inUse = true) : i < t.capacity := by
  by_contra hi
  rw [slotAt_of_le (by omega)] at h
  simp at h

theorem lt_capacity_of_holds {i : Nat} {p : Pid} (h : (t.slotAt i).holds p = true) :
    i < t.capacity :=
  lt_capacity_of_inUse (Slot.holds_iff.mp h).1

theorem lt_capacity_of_waiters {i : Nat} (h : (t.slotAt i).waiters ≠ 0) : i < t.capacity := by
  by_contra hi
  exact h (by rw [slotAt_of_le (by omega)]; rfl)

theorem exists_slotAt {s : Slot} (h : s ∈ t.slots) : ∃ i < t.capacity, t.slotAt i = s := by
  obtain ⟨i, hi, rfl⟩ := List.mem_iff_getElem.mp h
  exact ⟨i, hi, slotAt_getElem hi⟩

/-- A free slot is not one in use. -/
theorem ne_of_free {i j : Nat} (hfree : (t.slotAt i).inUse = false)
    (hu : (t.slotAt j).inUse = true) : i ≠ j := by
  intro hij
  rw [hij, hu] at hfree
  simp at hfree

/-- The slot of a zombie is not one of a living process. -/
theorem ne_of_zombie {i j : Nat} (hz : (t.slotAt i).isZombie = true)
    (ha : (t.slotAt j).status.isAlive = true) : i ≠ j := by
  intro hij
  rw [hij, Slot.not_zombie_of_alive ha] at hz
  simp at hz

theorem slotAt_mem {i : Nat} (h : i < t.capacity) : t.slotAt i ∈ t.slots := by
  rw [slotAt_getElem h]
  exact List.getElem_mem h

theorem any_slots {q : Slot → Bool} (hq : q .blank = false) :
    t.slots.any q = true ↔ ∃ i, q (t.slotAt i) = true := by
  rw [List.any_eq_true]
  constructor
  · intro hx
    obtain ⟨s, hs, hqs⟩ := hx
    obtain ⟨i, -, rfl⟩ := exists_slotAt hs
    exact ⟨i, hqs⟩
  · intro hx
    obtain ⟨i, hi⟩ := hx
    refine ⟨_, slotAt_mem ?_, hi⟩
    by_contra hlt
    rw [slotAt_of_le (by omega), hq] at hi
    exact absurd hi (by decide)

/-! ## Writing slots -/

@[simp] theorem capacity_setSlot (i : Nat) (s : Slot) : (t.setSlot i s).capacity = t.capacity := by
  simp [capacity, setSlot]

@[simp] theorem capacity_modifySlot (i : Nat) (f : Slot → Slot) :
    (t.modifySlot i f).capacity = t.capacity := by
  simp [capacity, modifySlot]

@[simp] theorem capacity_adopt (p : Pid) : (t.adopt p).capacity = t.capacity := by
  simp [capacity, adopt]

theorem slotAt_setSlot {i : Nat} (hi : i < t.capacity) (s : Slot) (j : Nat) :
    (t.setSlot i s).slotAt j = if i = j then s else t.slotAt j := by
  have hi' : i < t.slots.length := hi
  rw [slotAt_eq, slotAt_eq, setSlot, List.getElem?_set]
  by_cases h : i = j
  · rw [if_pos h, if_pos h, if_pos hi']
    rfl
  · rw [if_neg h, if_neg h]

theorem slotAt_modifySlot {i : Nat} (hi : i < t.capacity) (f : Slot → Slot) (j : Nat) :
    (t.modifySlot i f).slotAt j = if i = j then f (t.slotAt i) else t.slotAt j := by
  have hi' : i < t.slots.length := hi
  rw [slotAt_eq, slotAt_eq, modifySlot, List.getElem?_modify]
  by_cases h : i = j
  · subst h
    simp [hi']
  · simp [h, slotAt_eq]

/-- Only what becomes of the slot counts. -/
theorem modifySlot_eq {i : Nat} {f g : Slot → Slot}
    (h : f (t.slotAt i) = g (t.slotAt i)) : t.modifySlot i f = t.modifySlot i g := by
  have hslots : t.slots.modify i f = t.slots.modify i g := by
    refine List.ext_getElem? fun j => ?_
    rw [List.getElem?_modify, List.getElem?_modify]
    by_cases hij : i = j
    · subst hij
      cases hs : t.slots[i]? with
      | none => rfl
      | some s =>
        rw [slotAt_eq, hs] at h
        simpa using h
    · simp only [hij, if_false]
  rw [modifySlot, hslots]
  rfl

/-- What is the same in a rewritten slot is the same in all slots. -/
theorem modifySlot_congr {α : Type} {i : Nat} {f : Slot → Slot} {g : Slot → α} (hi : i < t.capacity)
    (h : g (f (t.slotAt i)) = g (t.slotAt i)) (j : Nat) :
    g ((t.modifySlot i f).slotAt j) = g (t.slotAt j) := by
  rw [slotAt_modifySlot hi]
  split
  · rename_i hij
    rw [h, hij]
  · rfl

/-- Rewriting a slot relates every slot to itself as it relates the rewritten one. -/
theorem rel_modifySlot {R : Slot → Slot → Prop} {i : Nat} {f : Slot → Slot} (hrefl : ∀ s, R s s)
    (hf : R (t.slotAt i) (f (t.slotAt i))) (j : Nat) :
    R (t.slotAt j) ((t.modifySlot i f).slotAt j) := by
  by_cases hi : i < t.capacity
  · rw [slotAt_modifySlot hi]
    split
    · rename_i hij
      rwa [← hij]
    · exact hrefl _
  · rw [modifySlot, List.modify_eq_self (Nat.le_of_not_lt hi)]
    exact hrefl _

theorem slotAt_adopt (p : Pid) (j : Nat) :
    (t.adopt p).slotAt j =
      if (t.slotAt j).isChildOf p then { t.slotAt j with parent := some t.adopter }
      else t.slotAt j := by
  by_cases hj : j < t.slots.length
  · simp [slotAt_eq, adopt, hj]
  · simp [slotAt_eq, adopt, hj]

/-! ## Searching -/

theorem slotOf?_eq_some {p : Pid} {i : Nat} :
    t.slotOf? p = some i ↔
      (t.slotAt i).holds p = true ∧ ∀ j < i, (t.slotAt j).holds p = false := by
  rw [slotOf?, List.findIdx?_eq_some_iff_getElem]
  constructor
  · intro hx
    obtain ⟨hi, hp, hlt⟩ := hx
    refine ⟨by rwa [slotAt_getElem hi], fun j hj => ?_⟩
    rw [slotAt_getElem (by omega)]
    simpa using hlt j hj
  · intro hx
    obtain ⟨hp, hlt⟩ := hx
    have hi : i < t.slots.length := lt_capacity_of_holds hp
    refine ⟨hi, by rwa [slotAt_getElem hi] at hp, fun j hj => ?_⟩
    have hj' := hlt j hj
    rw [slotAt_getElem (by omega)] at hj'
    simp [hj']

theorem holds_of_slotOf? {p : Pid} {i : Nat} (h : t.slotOf? p = some i) :
    (t.slotAt i).holds p = true := (slotOf?_eq_some.mp h).1

theorem freeSlot?_eq_some {i : Nat} :
    t.freeSlot? = some i ↔
      i < t.capacity ∧ (t.slotAt i).inUse = false ∧ ∀ j < i, (t.slotAt j).inUse = true := by
  rw [freeSlot?, List.findIdx?_eq_some_iff_getElem]
  constructor
  · intro hx
    obtain ⟨hi, hu, hlt⟩ := hx
    refine ⟨hi, by rw [slotAt_getElem hi]; simpa using hu, fun j hj => ?_⟩
    rw [slotAt_getElem (by omega)]
    simpa using hlt j hj
  · intro hx
    obtain ⟨hi, hu, hlt⟩ := hx
    refine ⟨hi, by rw [slotAt_getElem hi] at hu; simpa using hu, fun j hj => ?_⟩
    have hi' : i < t.slots.length := hi
    have hj' := hlt j hj
    rw [slotAt_getElem (by omega)] at hj'
    simp [hj']

theorem aliveSlot_eq_ok {p : Pid} {i : Nat} (h : t.aliveSlot p = .ok i) :
    t.slotOf? p = some i ∧ (t.slotAt i).status.isAlive = true := by
  rw [aliveSlot] at h
  cases hs : t.slotOf? p with
  | none => simp [hs] at h
  | some j =>
    simp only [hs] at h
    split at h
    · cases h
      exact ⟨rfl, ‹_›⟩
    · simp at h

theorem runningSlot_eq_ok {p : Pid} {i : Nat} (h : t.runningSlot p = .ok i) :
    t.slotOf? p = some i ∧ (t.slotAt i).status = .running := by
  rw [runningSlot] at h
  cases hs : t.slotOf? p with
  | none => simp [hs] at h
  | some j =>
    simp only [hs] at h
    split at h
    · cases h
      exact ⟨rfl, ‹_›⟩
    · simp at h

/-- A search finds nothing to collect exactly if no slot holds anything to collect. -/
private theorem find_hit_none {parent : Pid} {target : Target} :
    (t.slots.zipIdx.findSome? fun (s, i) =>
      (s.remains? parent target).map fun (pid, code) => Finding.found i pid code) = none ↔
      ∀ i, (t.slotAt i).remains? parent target = none := by
  rw [List.findSome?_eq_none_iff]
  constructor
  · intro h i
    by_cases hi : i < t.slots.length
    · have hmem : (t.slotAt i, i) ∈ t.slots.zipIdx := by
        simp [List.mem_zipIdx_iff_getElem?, slotAt_getElem hi, hi]
      simpa using h _ hmem
    · rw [slotAt_of_le (Nat.le_of_not_lt hi)]
      rfl
  · intro h x hs
    obtain ⟨s, i⟩ := x
    rw [List.mem_zipIdx_iff_getElem?] at hs
    have hr := h i
    rw [slotAt_eq, hs] at hr
    simp only [Option.getD_some] at hr
    simp [hr]

/-- A search stops at the first slot that holds anything to collect. -/
private theorem find_hit_some {parent : Pid} {target : Target} {finding : Finding}
    (h : (t.slots.zipIdx.findSome? fun (s, i) =>
      (s.remains? parent target).map fun (pid, code) => Finding.found i pid code) =
        some finding) :
    ∃ i p code, finding = .found i p code ∧
      (t.slotAt i).remains? parent target = some (p, code) ∧
      ∀ j < i, (t.slotAt j).remains? parent target = none := by
  obtain ⟨before, ⟨s, i⟩, after, hsplit, hs, hbefore⟩ := List.findSome?_eq_some_iff.mp h
  obtain ⟨⟨p, code⟩, hr, rfl⟩ := Option.map_eq_some_iff.mp hs
  have hindex : ∀ {m : Nat}, t.slots.zipIdx[m]? = t.slots[m]?.map fun s => (s, m) := by
    intro m
    rw [List.getElem?_zipIdx, Nat.zero_add]
  have hat := hindex (m := before.length)
  rw [hsplit, List.getElem?_append_right (Nat.le_refl _), Nat.sub_self] at hat
  obtain ⟨s', hs', heq⟩ := Option.map_eq_some_iff.mp hat.symm
  obtain ⟨rfl, rfl⟩ := Prod.mk.inj heq
  refine ⟨_, p, code, rfl, by rwa [slotAt_eq, hs'], fun j hj => ?_⟩
  have hat := hindex (m := j)
  rw [hsplit, List.getElem?_append_left hj, List.getElem?_eq_getElem hj] at hat
  obtain ⟨s, hs, heq⟩ := Option.map_eq_some_iff.mp hat.symm
  have hnone := hbefore _ (List.getElem_mem hj)
  rw [← heq] at hnone
  rw [slotAt_eq, hs]
  simpa using hnone

/-- A wait finds the first child that can be collected. -/
theorem find_eq_found_iff {parent p : Pid} {target : Target} {i : Nat} {code : ExitCode} :
    t.find parent target = .found i p code ↔
      (t.slotAt i).remains? parent target = some (p, code) ∧
        ∀ j < i, (t.slotAt j).remains? parent target = none := by
  rw [find]
  dsimp only
  split
  · rename_i finding hit
    obtain ⟨i', p', code', rfl, hr, hfirst⟩ := find_hit_some hit
    constructor
    · intro h
      obtain ⟨rfl, rfl, rfl⟩ := Finding.found.inj h
      exact ⟨hr, hfirst⟩
    · intro h
      obtain ⟨hr', hfirst'⟩ := h
      have hle : ¬i < i' := fun hlt => by simp [hfirst i hlt] at hr'
      have hge : ¬i' < i := fun hlt => by simp [hfirst' i' hlt] at hr
      obtain rfl : i' = i := by omega
      rw [hr] at hr'
      obtain ⟨rfl, rfl⟩ := Prod.mk.inj (Option.some.inj hr')
      rfl
  · rename_i hit
    constructor
    · intro h
      split at h <;> simp at h
    · intro h
      rw [find_hit_none.mp hit i] at h
      simp at h

theorem find_eq_found {parent p : Pid} {target : Target} {i : Nat} {code : ExitCode}
    (h : t.find parent target = .found i p code) :
    (t.slotAt i).remains? parent target = some (p, code) := (find_eq_found_iff.mp h).1

/-- A wait is pending if there are matching children, none of which can be collected. -/
theorem find_eq_pending {parent : Pid} {target : Target} :
    t.find parent target = .pending ↔
      (∃ i, ((t.slotAt i).matching? parent target).isSome = true) ∧
        ∀ i, (t.slotAt i).remains? parent target = none := by
  have hany : (t.slots.any fun s => (s.matching? parent target).isSome) = true ↔
      ∃ i, ((t.slotAt i).matching? parent target).isSome = true := any_slots rfl
  rw [← hany, ← find_hit_none, find]
  dsimp only
  split
  · rename_i finding hit
    obtain ⟨⟨s, j⟩, -, hs⟩ := List.exists_of_findSome?_eq_some hit
    obtain ⟨⟨q, c⟩, -, rfl⟩ := Option.map_eq_some_iff.mp hs
    simp [hit]
  · rename_i hit
    simp only [hit, and_true]
    split <;> simp_all

/-- A wait finds no children if no slot holds a matching one. -/
theorem find_eq_noChildren {parent : Pid} {target : Target} :
    t.find parent target = .noChildren ↔ ∀ i, (t.slotAt i).matching? parent target = none := by
  have hany : (t.slots.any fun s => (s.matching? parent target).isSome) = true ↔
      ∃ i, ((t.slotAt i).matching? parent target).isSome = true := any_slots rfl
  have hnone : (∀ i, (t.slotAt i).matching? parent target = none) ↔
      ¬(t.slots.any fun s => (s.matching? parent target).isSome) = true := by
    rw [hany]
    simp
  rw [hnone, find]
  dsimp only
  split
  · rename_i finding hit
    obtain ⟨i, p, code, rfl, hr, -⟩ := find_hit_some hit
    have hm := (Slot.remains?_eq_some.mp hr).1
    simp only [reduceCtorEq, false_iff, not_not]
    exact hany.mpr ⟨i, by rw [hm]; rfl⟩
  · split <;> simp_all

end Table

end Lifecycle
