import Lifecycle.Proofs.Table.Sound
import Lifecycle.Table.Audit
import Mathlib.Data.List.Perm.Subperm
/-!
# Lineages

From every process of a sound table the parent links lead up to the adopter, through living
processes and past none of them twice. So an audit of such a table never stops on its way up; the
only rule that it can find broken is that a living process has an address space.
-/

namespace Lifecycle

namespace Table

/-- A list of the ancestors of a process, from its parent up to the adopter. -/
def Ancestry (t : Table) : Pid → List Pid → Prop
  | p, [] => p = t.adopter
  | p, q :: line => t.parent? p = some q ∧ t.Ancestry q line

variable {t : Table}

theorem Sound.parent?_of_holds (hs : t.Sound) {i : Nat} {p : Pid}
    (hp : (t.slotAt i).holds p = true) : t.parent? p = (t.slotAt i).parent := by
  rw [parent?, hs.slotOf?_of_holds hp]
  rfl

/-- Following the parent links from a process leads to the adopter without repetition. -/
theorem Sound.exists_ancestry (hs : t.Sound) (hr : t.Ranked) {i : Nat} {p : Pid}
    (hp : (t.slotAt i).holds p = true) :
    ∃ line, t.Ancestry p line ∧ (p :: line).Nodup ∧ ∀ q ∈ line, t.Living q := by
  obtain ⟨rank, -, hrank⟩ := hr
  -- The induction carries that all ancestors rank below the process: hence none is met twice.
  suffices h : ∀ n i p, rank p = n → (t.slotAt i).holds p = true →
      ∃ line, t.Ancestry p line ∧ (p :: line).Nodup ∧ (∀ q ∈ line, rank q < n) ∧
        ∀ q ∈ line, t.Living q by
    obtain ⟨line, ha, hn, -, hl⟩ := h _ i p rfl hp
    exact ⟨line, ha, hn, hl⟩
  intro n
  induction n using Nat.strongRecOn with
  | _ n ih =>
    intro i p hn hp
    by_cases hi : i = 0
    · exact ⟨[], (hs.eq_zero_iff hp).mp hi, by simp, by simp, by simp⟩
    · obtain ⟨q, hq, j, hj, ha⟩ := hs.parent_alive i hi (Slot.holds_iff.mp hp).1
      have hlt : rank q < n := hn ▸ hrank i p q hp hq
      obtain ⟨line, hline, hnodup, hlow, halive⟩ := ih (rank q) hlt j q rfl hj
      have hbelow : ∀ r ∈ q :: line, rank r < n := by
        intro r hr
        rcases List.mem_cons.mp hr with rfl | hr
        · exact hlt
        · exact Nat.lt_trans (hlow r hr) hlt
      refine ⟨q :: line, ⟨by rw [hs.parent?_of_holds hp, hq], hline⟩, ?_, hbelow, ?_⟩
      · refine List.nodup_cons.mpr ⟨fun hmem => ?_, hnodup⟩
        have hself := hbelow p hmem
        omega
      · intro r hr
        rcases List.mem_cons.mp hr with rfl | hr
        · exact ⟨j, hj, ha⟩
        · exact halive r hr

/-- Different processes are in different slots. -/
theorem length_le_capacity {ps : List Pid} (hn : ps.Nodup)
    (h : ∀ p ∈ ps, ∃ i, (t.slotAt i).holds p = true) : ps.length ≤ t.capacity := by
  choose! slot hslot using h
  have hnodup : (ps.map slot).Nodup := by
    refine List.Nodup.map_on (fun p hp q hq heq => ?_) hn
    have hq' := hslot q hq
    rw [← heq] at hq'
    exact Slot.holds_inj (hslot p hp) hq'
  have hsub : ps.map slot ⊆ List.range t.capacity := by
    intro i hi
    obtain ⟨p, hp, rfl⟩ := List.mem_map.mp hi
    exact List.mem_range.mpr (lt_capacity_of_holds (hslot p hp))
  simpa using (hnodup.subperm hsub).length_le

/-- Climbing along a list of living ancestors arrives at the adopter. -/
theorem Sound.climb_eq_none (hs : t.Sound) {steps : Nat} {p : Pid} {line : List Pid}
    (h : t.Ancestry p line) (hne : p ≠ t.adopter) (hlen : line.length ≤ steps + 1)
    (halive : ∀ q ∈ line, t.Living q) :
    t.climb steps (t.parent? p) = none := by
  induction line generalizing p steps with
  | nil => exact absurd h hne
  | cons q line ih =>
    obtain ⟨hq, hline⟩ := h
    rw [hq, climb]
    split
    · rfl
    · rename_i hqa
      obtain ⟨j, hj, ha⟩ := halive q (by simp)
      have hz := Slot.not_zombie_of_alive ha
      simp only [hs.slotOf?_of_holds hj, hz, Bool.false_eq_true, if_false]
      cases line with
      | nil => exact absurd hline hqa
      | cons r line =>
        cases steps with
        | zero => simp at hlen
        | succ left =>
          dsimp only
          rw [← hs.parent?_of_holds hj]
          exact ih hline hqa (by simpa using hlen) fun r hr => halive r (List.mem_cons_of_mem _ hr)

theorem auditFrom_eq_some {i : Nat} {l : List Slot} {v : Violation}
    (h : t.auditFrom i l = some v) :
    ∃ before s later, l = before ++ s :: later ∧ v.slot = i + before.length ∧
      t.breach? s later = some v.breach := by
  induction l generalizing i with
  | nil => simp [auditFrom] at h
  | cons s later ih =>
    rw [auditFrom] at h
    cases hb : t.breach? s later with
    | some breach =>
      rw [hb] at h
      obtain rfl := Option.some.inj h
      exact ⟨[], s, later, rfl, rfl, hb⟩
    | none =>
      rw [hb] at h
      obtain ⟨before, s', later', rfl, hslot, hs'⟩ := ih h
      refine ⟨s :: before, s', later', rfl, ?_, hs'⟩
      rw [List.length_cons]
      omega

/-- The slots after a slot do not hold its process. -/
private theorem Sound.later_holds (hs : t.Sound) {before later : List Slot} {s : Slot} {p : Pid}
    (hl : t.slots = before ++ s :: later) (hp : s.holds p = true) :
    later.any (·.holds p) = false := by
  rw [Bool.eq_false_iff, ne_eq, List.any_eq_true]
  intro hx
  obtain ⟨s', hs', hp'⟩ := hx
  obtain ⟨m, hm, rfl⟩ := List.mem_iff_getElem.mp hs'
  have h1 : t.slotAt before.length = s := by simp [slotAt_eq, hl]
  have h2 : t.slotAt (before.length + (m + 1)) = later[m] := by
    simp [slotAt_eq, hl, hm]
  rw [← h1] at hp
  rw [← h2] at hp'
  have heq := hs.holds_unique _ _ p hp hp'
  omega

/-- The one rule that an audit of a sound table may find broken. -/
theorem Sound.audit_breach (hs : t.Sound) (hr : t.Ranked) {v : Violation}
    (h : t.audit = some v) : v.breach = .aliveWithoutSpace := by
  obtain ⟨before, s, later, hl, -, hb⟩ := auditFrom_eq_some h
  have hslot : t.slotAt before.length = s := by simp [slotAt_eq, hl]
  generalize before.length = i at hslot
  subst hslot
  rw [breach?] at hb
  by_cases hu : (t.slotAt i).inUse = true
  · obtain ⟨p, hpid⟩ := (hs.slots i).named hu
    have hp : (t.slotAt i).holds p = true := Slot.holds_iff.mpr ⟨hu, hpid⟩
    have hclimb : p ≠ t.adopter → t.climb t.capacity (t.slotAt i).parent = none := by
      intro hne
      obtain ⟨line, hline, hnodup, halive⟩ := hs.exists_ancestry hr hp
      have hlen := length_le_capacity hnodup fun q hq => by
        rcases List.mem_cons.mp hq with rfl | hq
        · exact ⟨i, hp⟩
        · obtain ⟨j, hj, -⟩ := halive q hq
          exact ⟨j, hj⟩
      rw [List.length_cons] at hlen
      rw [← hs.parent?_of_holds hp]
      exact hs.climb_eq_none hline hne (by omega) halive
    have hspace : ¬((t.slotAt i).isZombie = true ∧ (t.slotAt i).space.isSome = true) := by
      intro hx
      obtain ⟨hz, hsp⟩ := hx
      rw [(hs.slots i).no_space (.inl (Slot.isZombie_iff.mp hz))] at hsp
      simp at hsp
    have hroot : p = t.adopter → (t.slotAt i).parent = none := by
      intro hpa
      rw [(hs.eq_zero_iff hp).mpr hpa, hs.adopter.root]
    simp only [hu, if_true, hpid, hs.later_holds hl hp, Bool.false_eq_true, if_false,
      (hs.slots i).exitCode_iff, ne_eq, not_true_eq_false, hspace] at hb
    split at hb
    · exact (Option.some.inj hb).symm
    · split at hb
      · rename_i hpa
        rw [hroot hpa] at hb
        simp at hb
      · rename_i hpa
        rw [hclimb hpa] at hb
        simp at hb
  · rw [(hs.slots i).blank (by simpa using hu)] at hb
    simp at hb

end Table

end Lifecycle
