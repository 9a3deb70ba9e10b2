import Lifecycle.Proofs.Memory.Edits
/-!
# What a conflict means

A new area conflicts with a mapped one if each starts before the other ends. If neither is empty, the
two have a page in common then, and the later of their starts is such a page. An empty area conflicts
with another one if it lies strictly inside it, although no page is mapped twice: the page reported
is then not one of the empty area's. So the report names a page that was mapped before and is asked
for again exactly as long as no empty area stands strictly inside another one.
-/

namespace Lifecycle

namespace Area

variable {a b : Area} {p : Page}

theorem first_le_stop (a : Area) : a.extent.first ≤ a.extent.stop :=
  UInt64.le_iff_toNat_le.mp a.range.lo_le_hi

/-- An area without pages. -/
def Vacant (a : Area) : Prop := a.extent.first = a.extent.stop

instance (a : Area) : Decidable a.Vacant := inferInstanceAs (Decidable (_ = _))

/-- Two areas with a page in common. -/
def Shares (a b : Area) : Prop := ∃ p, a.maps p = true ∧ b.maps p = true

/-- An empty area strictly inside another one. -/
def Pierces (a b : Area) : Prop :=
  a.Vacant ∧ b.extent.first < a.extent.first ∧ a.extent.stop < b.extent.stop

/-- The larger of the two first pages. -/
def laterStart (a b : Area) : Page :=
  if b.range.lo.index ≤ a.range.lo.index then a.range.lo else b.range.lo

theorem toNat_laterStart : (a.laterStart b).index.toNat = max a.extent.first b.extent.first := by
  simp only [laterStart, UInt64.le_iff_toNat_le, Area.extent]
  split <;> omega

/-- The later start lies in a conflicting area unless that area is empty. -/
theorem maps_laterStart (h : ¬a.extent.Apart b.extent) :
    (a.maps (a.laterStart b) = true ↔ ¬a.Vacant) ∧ (b.maps (a.laterStart b) = true ↔ ¬b.Vacant) := by
  have ha := a.first_le_stop
  have hb := b.first_le_stop
  rw [Extent.Apart, not_not] at h
  rw [maps_iff, maps_iff, toNat_laterStart, Vacant, Vacant]
  omega

/-- The later start is a page that two areas have in common, if there is one. -/
theorem Shares.maps_laterStart (h : a.Shares b) :
    a.maps (a.laterStart b) = true ∧ b.maps (a.laterStart b) = true := by
  obtain ⟨p, hap, hbp⟩ := h
  rw [maps_iff] at hap hbp
  rw [maps_iff, maps_iff, toNat_laterStart]
  omega

theorem Shares.not_apart (h : a.Shares b) : ¬a.extent.Apart b.extent := by
  obtain ⟨p, hp⟩ := h
  intro hapart
  exact not_both_of_apart hapart p hp

theorem Pierces.not_apart (h : a.Pierces b) : ¬a.extent.Apart b.extent := by
  obtain ⟨hvacant, hlo, hhi⟩ := h
  rw [Vacant] at hvacant
  rw [Extent.Apart, not_not]
  omega

/-- Two areas conflict if they have a page in common or one is empty and strictly inside the other. -/
theorem not_apart_iff : ¬a.extent.Apart b.extent ↔ a.Shares b ∨ a.Pierces b ∨ b.Pierces a := by
  constructor
  · intro h
    obtain ⟨hleft, hright⟩ := maps_laterStart h
    rw [Extent.Apart, not_not] at h
    by_cases ha : a.Vacant
    · right; left
      exact ⟨ha, h.2.trans_eq ha.symm, ha ▸ h.1⟩
    by_cases hb : b.Vacant
    · right; right
      exact ⟨hb, h.1.trans_eq hb.symm, hb ▸ h.2⟩
    left
    exact ⟨a.laterStart b, hleft.mpr ha, hright.mpr hb⟩
  · rintro (h | h | h)
    · exact h.not_apart
    · exact h.not_apart
    · intro hapart
      exact h.not_apart hapart.symm

end Area

namespace AddressSpace

variable {s : AddressSpace} {a b : Area} {p : Page}

/-- The first area of a space that a new one conflicts with. -/
def conflict? (s : AddressSpace) (a : Area) : Option Area :=
  s.areas.find? fun b => decide ¬a.extent.Apart b.extent

theorem conflict?_eq_some (h : s.conflict? a = some b) :
    b ∈ s.areas ∧ ¬a.extent.Apart b.extent := by
  rw [conflict?] at h
  have hconflict := List.find?_some h
  exact ⟨List.mem_of_find?_eq_some h, of_decide_eq_true hconflict⟩

theorem exists_conflict_iff :
    (∃ b, s.conflict? a = some b) ↔ ∃ b ∈ s.areas, ¬a.extent.Apart b.extent := by
  rw [← Option.isSome_iff_exists, conflict?, List.find?_isSome]
  simp only [decide_eq_true_eq]

theorem find_overlapping : s.areas.find? (·.range.overlaps a.range) = s.conflict? a := by
  rw [conflict?]
  congr 1
  funext b
  rw [Bool.eq_iff_iff, PageRange.overlaps_iff, decide_eq_true_iff, not_iff_not]
  exact ⟨Extent.Apart.symm, Extent.Apart.symm⟩

/-- Within the limit, a page is reported exactly if there is a conflict: the later start of the new
area and the first one that it conflicts with. -/
theorem push_eq_alreadyMapped (hlimit : a.range.hi.base.word.toNat ≤ addrLimit.toNat) :
    s.push a = .error (.refused (.alreadyMapped p)) ↔
      ∃ b, s.conflict? a = some b ∧ a.laterStart b = p := by
  rw [← UInt64.le_iff_toNat_le, ← UInt64.not_lt] at hlimit
  simp only [push, hlimit, if_false, find_overlapping]
  cases s.conflict? a with
  | none => simp
  | some b => simp [Area.laterStart]

end AddressSpace

namespace Edit

/-- The step maps this area unless it conflicts: an area that passes the limit check, or the one that
covers a region within the limit. -/
def Offers : Edit → Area → Prop
  | push b, a => b = a ∧ a.range.hi.base.word.toNat ≤ addrLimit.toNat
  | insert r, a => r.Fits ∧ Area.covering r = .ok a
  | regions _, _ | image _, _ | copy, _ => False

variable {s : AddressSpace} {e : Edit} {a : Area} {p : Page}

theorem Offers.limit (h : e.Offers a) : a.range.hi.base.word.toNat ≤ addrLimit.toNat := by
  cases e with
  | push b => exact h.2
  | insert r =>
    obtain ⟨hfits, hcover⟩ := h
    obtain ⟨a', hcover', hextent⟩ := hfits.covering
    obtain rfl := Except.ok.inj (hcover.symm.trans hcover')
    have hstop : a.range.hi.index.toNat = (r.stop.word.toNat + 4095) / 4096 :=
      congrArg Extent.stop hextent
    have hbelow := hfits.2.2
    rw [toNat_addrLimit] at hbelow ⊢
    rw [Page.toNat_base]
    omega
  | regions rs => exact h.elim
  | image file => exact h.elim
  | copy => exact h.elim

theorem Offers.result (h : e.Offers a) : (e.build s).result = (s.push a).map fun _ => () := by
  cases e with
  | push b =>
    obtain ⟨rfl, -⟩ := h
    rw [build]
    cases s.push b <;> rfl
  | insert r =>
    rw [build, AddressSpace.insertAll, AddressSpace.insert_eq_push h.1 h.2]
    cases s.push a <;> rfl
  | regions rs => exact h.elim
  | image file => exact h.elim
  | copy => exact h.elim

theorem Offers.alreadyMapped_iff (h : e.Offers a) :
    (e.build s).result = .error (.refused (.alreadyMapped p)) ↔
      ∃ b, s.conflict? a = some b ∧ a.laterStart b = p := by
  rw [h.result, ← AddressSpace.push_eq_alreadyMapped h.limit]
  cases s.push a <;> simp [Except.map]

/-- In every address space a new area is refused for a conflict exactly if it has a page in common
with a mapped area, or one of the two is empty and strictly inside the other. The page reported is the
later start of two such areas, and lies in each of them that is not empty. So, without an empty area
strictly inside another one, a conflict is reported exactly if a page would be mapped twice, and the
page reported is one of those. -/
theorem alreadyMapped_of_run (edits : List Edit) {e : Edit} {a : Area} (h : e.Offers a) :
    ((∃ p, (e.build (run edits)).result = .error (.refused (.alreadyMapped p))) ↔
      ∃ b ∈ (run edits).areas, a.Shares b ∨ a.Pierces b ∨ b.Pierces a) ∧
    (∀ p, (e.build (run edits)).result = .error (.refused (.alreadyMapped p)) →
      ∃ b ∈ (run edits).areas, p = a.laterStart b ∧ (a.maps p = true ↔ ¬a.Vacant) ∧
        (b.maps p = true ↔ ¬b.Vacant)) ∧
    ((∀ b ∈ (run edits).areas, ¬a.Pierces b ∧ ¬b.Pierces a) →
      ((∃ p, (e.build (run edits)).result = .error (.refused (.alreadyMapped p))) ↔
        ∃ p, a.maps p = true ∧ (run edits).maps p = true) ∧
      ∀ p, (e.build (run edits)).result = .error (.refused (.alreadyMapped p)) →
        a.maps p = true ∧ (run edits).maps p = true) := by
  generalize run edits = s
  have hexact : (∃ p, (e.build s).result = .error (.refused (.alreadyMapped p))) ↔
      ∃ b ∈ s.areas, a.Shares b ∨ a.Pierces b ∨ b.Pierces a := by
    simp only [h.alreadyMapped_iff, ← Area.not_apart_iff, ← AddressSpace.exists_conflict_iff]
    rw [exists_comm]
    simp
  have hpage : ∀ p, (e.build s).result = .error (.refused (.alreadyMapped p)) → ∃ b ∈ s.areas,
      p = a.laterStart b ∧ (a.maps p = true ↔ ¬a.Vacant) ∧ (b.maps p = true ↔ ¬b.Vacant) := by
    intro p hp
    obtain ⟨b, hb, rfl⟩ := h.alreadyMapped_iff.mp hp
    obtain ⟨hmem, hconflict⟩ := AddressSpace.conflict?_eq_some hb
    exact ⟨b, hmem, rfl, Area.maps_laterStart hconflict⟩
  refine ⟨hexact, hpage, fun hclear => ?_⟩
  have htruth : ∀ p, (e.build s).result = .error (.refused (.alreadyMapped p)) →
      a.maps p = true ∧ s.maps p = true := by
    intro p hp
    obtain ⟨b, hb, rfl⟩ := h.alreadyMapped_iff.mp hp
    obtain ⟨hmem, hconflict⟩ := AddressSpace.conflict?_eq_some hb
    obtain ⟨hleft, hright⟩ := hclear b hmem
    have hshares : a.Shares b := by
      rcases Area.not_apart_iff.mp hconflict with hshares | hpierces | hpierces
      · exact hshares
      · exact absurd hpierces hleft
      · exact absurd hpierces hright
    obtain ⟨ha, hb⟩ := hshares.maps_laterStart
    exact ⟨ha, List.any_eq_true.mpr ⟨b, hmem, hb⟩⟩
  refine ⟨⟨?_, ?_⟩, htruth⟩
  · rintro ⟨p, hp⟩
    exact ⟨p, htruth p hp⟩
  · rintro ⟨p, hap, hsp⟩
    obtain ⟨b, hb, hbp⟩ := List.any_eq_true.mp hsp
    exact hexact.mpr ⟨b, hb, .inl ⟨p, hap, hbp⟩⟩

/-- The page in which two regions meet is reported. -/
theorem alreadyMapped_of_overlap :
    let first : Edit := insert ⟨⟨0x1000⟩, ⟨0x4000⟩, .all⟩
    let second : Edit := insert ⟨⟨0x3800⟩, ⟨0x5000⟩, .all⟩
    let a : Area := ⟨⟨⟨3⟩, ⟨5⟩, by decide⟩, .all⟩
    second.Offers a ∧ (∀ b ∈ (run [first]).areas, ¬a.Pierces b ∧ ¬b.Pierces a) ∧
      (second.build (run [first])).result = .error (.refused (.alreadyMapped ⟨3⟩)) ∧
      a.maps ⟨3⟩ = true ∧ (run [first]).maps ⟨3⟩ = true := by
  intro first second a
  have hoffers : second.Offers a := ⟨by decide +kernel, by decide +kernel⟩
  have hclear : ∀ b ∈ (run [first]).areas, ¬a.Pierces b ∧ ¬b.Pierces a := by
    intro b hb
    obtain rfl : b = ⟨⟨⟨1⟩, ⟨4⟩, by decide⟩, .all⟩ := List.mem_singleton.mp hb
    exact ⟨fun h => absurd h.1 (by decide), fun h => absurd h.1 (by decide)⟩
  have hfail : (second.build (run [first])).result = .error (.refused (.alreadyMapped ⟨3⟩)) := by
    decide +kernel
  exact ⟨hoffers, hclear, hfail,
    ((alreadyMapped_of_run [first] hoffers).2.2 hclear).2 ⟨3⟩ hfail⟩

/-- After an empty area alone nothing is mapped, and a page is reported as mapped. -/
theorem not_alreadyMapped_of_vacant :
    let first : Edit := insert ⟨⟨0x2000⟩, ⟨0x2000⟩, .all⟩
    let second : Edit := insert ⟨⟨0x1000⟩, ⟨0x4000⟩, .all⟩
    (first.build .empty).result = .ok () ∧ (∀ p, (run [first]).maps p = false) ∧
      (second.build (run [first])).result = .error (.refused (.alreadyMapped ⟨2⟩)) := by
  intro first second
  refine ⟨by decide +kernel, ?_, by decide +kernel⟩
  intro p
  have hareas : (run [first]).areas = [⟨⟨⟨2⟩, ⟨2⟩, by decide⟩, .all⟩] := by decide +kernel
  rw [← Bool.not_eq_true, AddressSpace.maps, hareas]
  simp only [List.any_cons, List.any_nil, Bool.or_false, Area.maps_iff]
  intro h
  exact absurd (Nat.lt_of_le_of_lt h.1 h.2) (by decide)

end Edit

end Lifecycle
