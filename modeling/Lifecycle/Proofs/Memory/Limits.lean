import Lifecycle.Proofs.Memory.Edits
/-!
# The address limit on page numbers

The limit is checked on the first address of an area's end page, and a page number above 52 bits has
no such address in a word: the check sees what is left of it modulo the number of pages that have
one. So an area that ends at a page with an address is mapped only below the limit, and an area whose
end page has none slips through if the rest is small. Regions, images and copies never name such a
page. A page beyond the limit is mapped only where an area of that kind was pushed.
-/

namespace Lifecycle

/-- The number of pages below the address limit. -/
def pageLimit : Nat := addrLimit.toNat / pageSize.toNat

theorem pageLimit_eq : pageLimit = 2 ^ 26 := by decide

/-- The number of pages that have an address in a word. -/
def wordPages : Nat := UInt64.size / pageSize.toNat

theorem wordPages_eq : wordPages = 2 ^ 52 := by decide

/-- What the limit check sees of a page. -/
theorem Page.base_le_limit_iff (p : Page) :
    p.base.word.toNat ≤ addrLimit.toNat ↔ p.index.toNat % wordPages ≤ pageLimit := by
  rw [Page.toNat_base, toNat_addrLimit, wordPages_eq, pageLimit_eq]
  omega

/-- The area ends within the limit. -/
def Area.Within (a : Area) : Prop := a.extent.stop ≤ pageLimit

namespace AddressSpace

variable {s s' : AddressSpace} {a : Area} {r : Region} {v : Addr}

theorem push_eq_outOfRange : s.push a = .error (.refused (.outOfRange v)) ↔
    pageLimit < a.extent.stop % wordPages ∧ v = a.range.hi.base := by
  have hlimit := Page.base_le_limit_iff a.range.hi
  rw [← not_iff_not, Nat.not_le, Nat.not_le, ← UInt64.lt_iff_toNat_lt] at hlimit
  rw [Area.extent, ← hlimit]
  simp only [push]
  split
  · rename_i h
    simp only [h, true_and, Except.error.injEq, Fault.refused.injEq, Refusal.outOfRange.injEq]
    exact eq_comm
  · rename_i h
    simp only [h, false_and, iff_false]
    split <;> simp

theorem stop_of_push (h : s.push a = .ok s') : a.extent.stop % wordPages ≤ pageLimit := by
  apply (Page.base_le_limit_iff _).mp
  exact (push_eq_ok.mp h).1

/-- A pushed area ends within the limit, or at a page that has no address. -/
theorem within_of_push (h : s.push a = .ok s') : a.Within ∨ wordPages ≤ a.extent.stop := by
  have hend := stop_of_push h
  rcases Nat.lt_or_ge a.extent.stop wordPages with hword | hword
  · left
    rwa [Nat.mod_eq_of_lt hword] at hend
  · right
    exact hword

theorem within_of_insert (h : s.insert r = .ok s') : ∃ a, a.Within ∧ s.push a = .ok s' := by
  obtain ⟨⟨-, -, hstop⟩, a, hextent, hpush⟩ := push_of_insert h
  refine ⟨a, ?_, hpush⟩
  have hend : a.extent.stop = (r.stop.word.toNat + 4095) / 4096 := congrArg Extent.stop hextent
  rw [toNat_addrLimit] at hstop
  rw [Area.Within, hend, pageLimit_eq]
  omega

/-- Mapping regions adds only areas within the limit. -/
theorem invariant_within (Pushed : Area → Prop) :
    Invariant fun s => ∀ a ∈ s.areas, a.Within ∨ Pushed a where
  empty := nofun
  insert := by
    intro s s' r h hinsert
    obtain ⟨a, hwithin, hpush⟩ := within_of_insert hinsert
    intro b hb
    rcases (mem_push hpush).mp hb with hb | rfl
    · exact h b hb
    · exact .inl hwithin

end AddressSpace

namespace Edit

/-- Every area of a space is within the limit, or was pushed with an end page that has no address. -/
theorem within_of_run (edits : List Edit) :
    ∀ a ∈ (run edits).areas, a.Within ∨ (push a ∈ edits ∧ wordPages ≤ a.extent.stop) := by
  apply run_invariant (AddressSpace.invariant_within fun a => push a ∈ edits ∧ wordPages ≤ a.extent.stop)
  intro a ha s s' h hpush b hb
  rcases (AddressSpace.mem_push hpush).mp hb with hb | rfl
  · exact h b hb
  · apply (AddressSpace.within_of_push hpush).imp_right
    intro hword
    exact ⟨ha, hword⟩

/-- The limit check refuses an area exactly if its end page exceeds the limit modulo the number of
pages that have an address. So of the areas that end at a page with an address those beyond the limit
are refused, and a page there is mapped only by an area that was pushed with another end page. -/
theorem run_limited (s : AddressSpace) (a : Area) (edits : List Edit) :
    (∀ v, s.push a = .error (.refused (.outOfRange v)) ↔
      pageLimit < a.extent.stop % wordPages ∧ v = a.range.hi.base) ∧
    (a.extent.stop < wordPages → ((∃ s', s.push a = .ok s') → a.extent.stop ≤ pageLimit) ∧
      (pageLimit < a.extent.stop → ∃ v, s.push a = .error (.refused (.outOfRange v)))) ∧
    ∀ p, (run edits).maps p = true → p.index.toNat < pageLimit ∨
      ∃ b, push b ∈ edits ∧ wordPages ≤ b.extent.stop ∧ b.maps p = true := by
  refine ⟨fun v => AddressSpace.push_eq_outOfRange, ?_, ?_⟩
  · intro hword
    constructor
    · rintro ⟨s', hpush⟩
      apply (AddressSpace.within_of_push hpush).resolve_right
      exact Nat.not_le.mpr hword
    · intro hbeyond
      refine ⟨_, AddressSpace.push_eq_outOfRange.mpr ⟨?_, rfl⟩⟩
      rwa [Nat.mod_eq_of_lt hword]
  · intro p hp
    obtain ⟨b, hb, hbp⟩ := List.any_eq_true.mp hp
    rcases within_of_run edits b hb with hwithin | ⟨hpush, hword⟩
    · left
      exact Nat.lt_of_lt_of_le ((Area.maps_iff.mp hbp).2) hwithin
    · right
      exact ⟨b, hpush, hword, hbp⟩

/-- The two highest pages and the one beyond them. -/
def straddling : Area := ⟨⟨⟨0x3fffffe⟩, ⟨0x4000001⟩, by decide⟩, .all⟩

/-- An area that reaches one page beyond the limit is refused, and a mapped region lies below it. -/
theorem run_limited_straddling :
    (straddling.extent.stop < wordPages ∧ pageLimit < straddling.extent.stop ∧
      ∃ v, AddressSpace.empty.push straddling = .error (.refused (.outOfRange v))) ∧
    ((run [.insert ⟨⟨0x1000⟩, ⟨0x1800⟩, .all⟩]).maps ⟨1⟩ = true ∧
      ((1 : UInt64).toNat < pageLimit ∨ ∃ b, push b ∈ [insert ⟨⟨0x1000⟩, ⟨0x1800⟩, .all⟩] ∧
        wordPages ≤ b.extent.stop ∧ b.maps ⟨1⟩ = true)) := by
  have hword : straddling.extent.stop < wordPages := by decide
  have hbeyond : pageLimit < straddling.extent.stop := by decide
  have hmaps : (run [.insert ⟨⟨0x1000⟩, ⟨0x1800⟩, .all⟩]).maps ⟨1⟩ = true := by decide +kernel
  obtain ⟨-, hrefused, hbelow⟩ :=
    run_limited .empty straddling [.insert ⟨⟨0x1000⟩, ⟨0x1800⟩, .all⟩]
  exact ⟨⟨hword, hbeyond, (hrefused hword).2 hbeyond⟩, hmaps, hbelow ⟨1⟩ hmaps⟩

/-- All pages from the limit up to the last one that has an address. -/
def wrapping : Area := ⟨⟨⟨0x4000000⟩, ⟨0x10000000000000⟩, by decide⟩, .all⟩

/-- An area that starts at the limit is mapped, since its end page has no address: the check sees
page 0. -/
theorem not_limited_of_wrapping :
    pageLimit < wrapping.extent.stop ∧ AddressSpace.empty.push wrapping = .ok ⟨[wrapping]⟩ ∧
      pageLimit ≤ (0x4000000 : UInt64).toNat ∧ (run [push wrapping]).maps ⟨0x4000000⟩ = true := by
  refine ⟨by decide, rfl, by decide, by decide +kernel⟩

end Edit

end Lifecycle
