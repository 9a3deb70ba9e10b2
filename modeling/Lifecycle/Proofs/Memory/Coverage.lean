import Lifecycle.Proofs.Memory.Edits
/-!
# The pages that a region needs

The start of a region is rounded down and its end up, so a region with bytes is covered by the pages
that hold one of them, whatever the alignment of its two ends. A region without bytes needs no page;
if it stands inside a page and not at its start, the two roundings still differ, and that page is
mapped all the same.
-/

namespace Lifecycle

namespace Region

variable {r : Region} {p : Page}

/-- A byte of the region lies in the page. -/
def HasByteIn (r : Region) (p : Page) : Prop :=
  ∃ a : Addr, r.start.word ≤ a.word ∧ a.word < r.stop.word ∧ a.floor = p

/-- The region has no bytes, and stands in the page behind its first address. -/
def IsPointIn (r : Region) (p : Page) : Prop :=
  r.start = r.stop ∧ r.start.word % pageSize ≠ 0 ∧ r.start.floor = p

theorem hasByteIn_iff : r.HasByteIn p ↔ r.start.word.toNat < r.stop.word.toNat ∧
    r.extent.first ≤ p.index.toNat ∧ p.index.toNat < r.extent.stop := by
  simp only [HasByteIn, UInt64.le_iff_toNat_le, UInt64.lt_iff_toNat_lt, Page.ext_iff,
    Addr.toNat_floor, extent]
  constructor
  · rintro ⟨a, hlo, hhi, hp⟩
    omega
  · rintro ⟨hbytes, hlo, hhi⟩
    -- the region starts in the page, or it holds the first byte of the page
    have hword := r.stop.word.toNat_lt
    obtain ⟨a, ha⟩ := exists_addr (n := max r.start.word.toNat (p.index.toNat * 4096)) (by omega)
    exact ⟨a, by omega, by omega, by omega⟩

theorem isPointIn_iff : r.IsPointIn p ↔ r.start.word.toNat = r.stop.word.toNat ∧
    r.extent.first ≤ p.index.toNat ∧ p.index.toNat < r.extent.stop := by
  have hpoint : r.start = r.stop ↔ r.start.word.toNat = r.stop.word.toNat := by
    rw [UInt64.toNat_inj]
    exact ⟨congrArg Addr.word, fun h => congrArg Addr.mk h⟩
  have hinside : r.start.word % pageSize ≠ 0 ↔ r.start.word.toNat % 4096 ≠ 0 := by
    rw [ne_eq, ← UInt64.toNat_inj, UInt64.toNat_mod, toNat_pageSize]
    rfl
  rw [IsPointIn, hpoint, hinside, Page.ext_iff, Addr.toNat_floor, extent]
  dsimp only
  omega

/-- The pages of a region in order are those with a byte of it, or the one that it stands in. -/
theorem mem_extent (horder : r.start.word.toNat ≤ r.stop.word.toNat) :
    r.extent.first ≤ p.index.toNat ∧ p.index.toNat < r.extent.stop ↔
      r.HasByteIn p ∨ r.IsPointIn p := by
  rw [hasByteIn_iff, isPointIn_iff, ← or_and_right, ← Nat.le_iff_lt_or_eq]
  exact (and_iff_right horder).symm

end Region

namespace AddressSpace

variable {s s' : AddressSpace} {a : Area} {r : Region} {p : Page}

theorem maps_push (h : s.push a = .ok s') :
    s'.maps p = true ↔ s.maps p = true ∨ a.maps p = true := by
  simp only [maps, List.any_eq_true, mem_push h]
  constructor
  · rintro ⟨b, hb | rfl, hbp⟩
    · exact .inl ⟨b, hb, hbp⟩
    · exact .inr hbp
  · rintro (⟨b, hb, hbp⟩ | hap)
    · exact ⟨b, .inl hb, hbp⟩
    · exact ⟨a, .inr rfl, hap⟩

/-- After a region was mapped, those pages are mapped that were before and those that hold one of its
bytes, besides the page that a region without bytes stands in. Each of the new pages has the
permission of the region. -/
theorem insert_covers (h : s.insert r = .ok s') (p : Page) :
    (s'.maps p = true ↔ s.maps p = true ∨ r.HasByteIn p ∨ r.IsPointIn p) ∧
    (s'.maps p = true → s.maps p = false →
      ∃ a ∈ s'.areas, a.maps p = true ∧ a.access = r.access) := by
  obtain ⟨⟨horder, -, -⟩, a, hextent, hpush⟩ := push_of_insert h
  have hpages : a.maps p = true ↔ r.HasByteIn p ∨ r.IsPointIn p := by
    rw [Area.maps_iff, hextent]
    exact Region.mem_extent horder
  rw [← hpages]
  refine ⟨maps_push hpush, ?_⟩
  intro hp hnew
  refine ⟨a, (mem_push hpush).mpr (.inr rfl), ?_, congrArg Extent.access hextent⟩
  apply ((maps_push hpush).mp hp).resolve_left
  rw [hnew]
  exact Bool.false_ne_true

/-- Three bytes around a page boundary map the two pages that they lie in. -/
theorem insert_covers_boundary :
    let s : AddressSpace := ⟨[⟨⟨⟨4⟩, ⟨5⟩, by decide⟩, .all⟩]⟩
    let r : Region := ⟨⟨0x1ffe⟩, ⟨0x2001⟩, ⟨true, false, false, true⟩⟩
    let s' : AddressSpace := ⟨s.areas ++ [⟨⟨⟨1⟩, ⟨3⟩, by decide⟩, r.access⟩]⟩
    s.insert r = .ok s' ∧ s'.maps ⟨2⟩ = true ∧ s.maps ⟨2⟩ = false ∧
      (s.maps ⟨2⟩ = true ∨ r.HasByteIn ⟨2⟩ ∨ r.IsPointIn ⟨2⟩) ∧
      ∃ a ∈ s'.areas, a.maps ⟨2⟩ = true ∧ a.access = r.access := by
  intro s r s'
  have hinsert : s.insert r = .ok s' := by decide +kernel
  have hafter : s'.maps ⟨2⟩ = true := by decide +kernel
  have hbefore : s.maps ⟨2⟩ = false := by decide +kernel
  obtain ⟨hmaps, hnew⟩ := insert_covers hinsert ⟨2⟩
  exact ⟨hinsert, hafter, hbefore, hmaps.mp hafter, hnew hafter hbefore⟩

/-- A region without bytes in the middle of a page maps that page. -/
theorem not_covers_of_point :
    let r : Region := ⟨⟨0x1800⟩, ⟨0x1800⟩, .all⟩
    ∃ s', empty.insert r = .ok s' ∧ s'.maps ⟨1⟩ = true ∧ empty.maps ⟨1⟩ = false ∧
      ¬∃ a : Addr, r.start.word ≤ a.word ∧ a.word < r.stop.word ∧ a.floor = ⟨1⟩ := by
  intro r
  refine ⟨⟨[⟨⟨⟨1⟩, ⟨2⟩, by decide⟩, .all⟩]⟩, by decide +kernel, by decide +kernel, rfl, ?_⟩
  intro hbyte
  obtain ⟨hpos, -⟩ := Region.hasByteIn_iff.mp hbyte
  exact absurd hpos (Nat.lt_irrefl _)

end AddressSpace

end Lifecycle
