import Mathlib.Data.Finset.Card
import Mathlib.Order.Interval.Finset.Nat
import Mathlib.SetTheory.Cardinal.Finite
import Lifecycle.Proofs.Image.Loading
/-!
# Address spaces that are edited

However an address space came about, by regions and areas that were mapped one by one, by lists of
regions, by program images and by copies, and however many of these steps failed, its areas have no
page in common. So every mapped page has one permission, the page count is the number of mapped
pages, and no partial sum of it leaves the 64-bit range: the areas of a space whose areas lie apart
are disjoint sets of the pages below the topmost one. A failed mapping leaves the space as it was.
-/

namespace Lifecycle

theorem Area.maps_iff {a : Area} {p : Page} :
    a.maps p = true ↔ a.extent.first ≤ p.index.toNat ∧ p.index.toNat < a.extent.stop := by
  simp only [Area.maps, PageRange.contains, Bool.and_eq_true, decide_eq_true_eq,
    UInt64.le_iff_toNat_le, UInt64.lt_iff_toNat_lt, Area.extent]

/-- Areas that lie apart have no page in common. -/
theorem Area.not_both_of_apart {a b : Area} (h : a.extent.Apart b.extent) (p : Page) :
    ¬(a.maps p = true ∧ b.maps p = true) := by
  rw [Area.maps_iff, Area.maps_iff]
  rintro ⟨⟨halo, hahi⟩, hblo, hbhi⟩
  exact h ⟨Nat.lt_of_le_of_lt halo hbhi, Nat.lt_of_le_of_lt hblo hahi⟩

namespace AddressSpace

variable {s s' : AddressSpace} {a : Area} {r : Region} {fault : Fault}

theorem pageCount_cons (a : Area) (as : List Area) :
    pageCount ⟨a :: as⟩ = a.pageCount + pageCount ⟨as⟩ := by
  simp only [pageCount, ← List.sum_eq_foldl, List.map_cons, List.sum_cons]

/-- The numbers of the pages in some areas. -/
def numbers : List Area → Finset Nat
  | [] => ∅
  | a :: as => Finset.Ico a.range.lo.index.toNat a.range.hi.index.toNat ∪ numbers as

theorem mem_numbers {as : List Area} {n : Nat} :
    n ∈ numbers as ↔ ∃ a ∈ as, a.extent.first ≤ n ∧ n < a.extent.stop := by
  induction as with
  | nil => simp only [numbers, Finset.notMem_empty, List.not_mem_nil, false_and, exists_false]
  | cons a as ih =>
    rw [numbers, Finset.mem_union, Finset.mem_Ico, ih, List.exists_mem_cons_iff]
    rfl

/-- No area reaches the topmost page of the 64-bit range. -/
theorem numbers_subset (as : List Area) : numbers as ⊆ Finset.range (2 ^ 64 - 1) := by
  intro n hn
  obtain ⟨a, -, -, hstop⟩ := mem_numbers.mp hn
  have hword : a.extent.stop < 2 ^ 64 := a.range.hi.index.toNat_lt
  rw [Finset.mem_range]
  omega

theorem card_numbers {as : List Area} (h : (as.map Area.extent).Pairwise Extent.Apart) :
    (numbers as).card = pageCount ⟨as⟩ := by
  induction as with
  | nil => rfl
  | cons a as ih =>
    rw [List.map_cons, List.pairwise_cons] at h
    have hdisjoint : Disjoint (Finset.Ico a.range.lo.index.toNat a.range.hi.index.toNat)
        (numbers as) := by
      rw [Finset.disjoint_left]
      intro n hn hrest
      obtain ⟨b, hb, hlo, hhi⟩ := mem_numbers.mp hrest
      obtain ⟨halo, hahi⟩ := Finset.mem_Ico.mp hn
      apply h.1 b.extent (List.mem_map_of_mem hb)
      exact ⟨Nat.lt_of_le_of_lt halo hhi, Nat.lt_of_le_of_lt hlo hahi⟩
    rw [numbers, Finset.card_union_of_disjoint hdisjoint, ih h.2, Nat.card_Ico, pageCount_cons]
    rfl

/-- The mapped pages are as many as their numbers. -/
theorem card_maps (s : AddressSpace) :
    Nat.card {p : Page // s.maps p = true} = (numbers s.areas).card := by
  have hmaps : ∀ p : Page, p.index.toNat ∈ numbers s.areas ↔ s.maps p = true := by
    intro p
    rw [mem_numbers, AddressSpace.maps_iff, extents]
    simp only [List.mem_map, exists_exists_and_eq_and]
  let number : {p : Page // s.maps p = true} → {n // n ∈ numbers s.areas} :=
    fun p => ⟨p.1.index.toNat, (hmaps p.1).mpr p.2⟩
  have hbijective : Function.Bijective number := by
    constructor
    · intro p q h
      exact Subtype.ext (Page.ext (congrArg Subtype.val h))
    · rintro ⟨n, hn⟩
      have hlt := Finset.mem_range.mp (numbers_subset s.areas hn)
      have hword : (UInt64.ofNat n).toNat = n :=
        UInt64.toNat_ofNat_of_lt' (by rw [UInt64.size]; omega)
      exact ⟨⟨⟨UInt64.ofNat n⟩, (hmaps _).mp (hword.symm ▸ hn)⟩, Subtype.ext hword⟩
  rw [Nat.card_eq_of_bijective number hbijective]
  exact Nat.subtype_card (numbers s.areas) fun _ => Iff.rfl

/-- What holds of an address space whose areas have no page in common. -/
structure Tidy (s : AddressSpace) : Prop where
  disjoint : s.areas.Pairwise fun a b => ∀ p, ¬(a.maps p = true ∧ b.maps p = true)
  single : ∀ p, s.maps p = true → ∃! access, ∃ a ∈ s.areas, a.maps p = true ∧ a.access = access
  counted : s.pageCount = Nat.card {p : Page // s.maps p = true}
  bounded : ∀ n, pageCount ⟨s.areas.take n⟩ < 2 ^ 64

theorem disjoint_of_apart (h : s.extents.Pairwise Extent.Apart) :
    s.areas.Pairwise fun a b => ∀ p, ¬(a.maps p = true ∧ b.maps p = true) :=
  (List.pairwise_map.mp h).imp Area.not_both_of_apart

theorem existsUnique_access (h : s.extents.Pairwise Extent.Apart) {p : Page}
    (hp : s.maps p = true) : ∃! access, ∃ a ∈ s.areas, a.maps p = true ∧ a.access = access := by
  obtain ⟨a, ha, hap⟩ := List.any_eq_true.mp hp
  refine ⟨a.access, ⟨a, ha, hap, rfl⟩, ?_⟩
  rintro access ⟨b, hb, hbp, rfl⟩
  have hsymm : Std.Symm fun a b : Area => ∀ p, ¬(a.maps p = true ∧ b.maps p = true) :=
    ⟨fun a b hab p hp => hab p hp.symm⟩
  by_contra hne
  exact (disjoint_of_apart h).forall hb ha (fun heq => hne (heq ▸ rfl)) p ⟨hbp, hap⟩

theorem pageCount_take_lt (h : s.extents.Pairwise Extent.Apart) (n : Nat) :
    pageCount ⟨s.areas.take n⟩ < 2 ^ 64 := by
  have htake : ((s.areas.take n).map Area.extent).Pairwise Extent.Apart := by
    rw [List.map_take]
    exact h.sublist (List.take_sublist _ _)
  rw [← card_numbers htake]
  have hcard := Finset.card_le_card (numbers_subset (s.areas.take n))
  rw [Finset.card_range] at hcard
  omega

theorem tidy_of_apart (h : s.extents.Pairwise Extent.Apart) : s.Tidy where
  disjoint := disjoint_of_apart h
  single _ hp := existsUnique_access h hp
  counted := by rw [card_maps, card_numbers h]
  bounded := pageCount_take_lt h

/-- Each area once more, from its two end pages. -/
def rebuilt (s : AddressSpace) : Except Fault (List Area) :=
  s.areas.mapM fun a => (PageRange.between a.range.lo a.range.hi).map fun range => ⟨range, a.access⟩

theorem copy_eq (s : AddressSpace) : s.copy = s := by
  rw [copy]
  exact congrArg mk (List.map_id _)

theorem rebuilt_eq (s : AddressSpace) : s.rebuilt = .ok s.copy.areas := by
  have hbetween : ∀ r : PageRange, PageRange.between r.lo r.hi = .ok r :=
    fun r => dif_pos r.lo_le_hi
  rw [copy_eq, rebuilt]
  induction s.areas with
  | nil => rfl
  | cons a as ih =>
    rw [List.mapM_cons, ih, hbetween]
    rfl

end AddressSpace

/-- A step that makes or changes an address space. -/
inductive Edit where
  | insert (region : Region)
  | push (area : Area)
  /-- A new space from a list of regions. -/
  | regions (regions : List Region)
  /-- A new space from a program image. -/
  | image (file : Bytes)
  | copy

namespace Edit

/-- The space that a step leaves or makes, also when it fails. -/
def build (s : AddressSpace) : Edit → Build Unit
  | insert r => s.insertAll [r]
  | push a =>
    match s.push a with
    | .ok s' => ⟨s', .ok ()⟩
    | .error fault => ⟨s, .error fault⟩
  | regions rs => AddressSpace.ofRegions rs
  | image file => ⟨(Elf.load file).space, (Elf.load file).result.map fun _ => ()⟩
  | copy => ⟨s.copy, .ok ()⟩

/-- A new space that could not be made does not replace the old one. -/
def apply (s : AddressSpace) (e : Edit) : AddressSpace :=
  match (e.build s).result with
  | .ok _ => (e.build s).space
  | .error _ => s

def run (edits : List Edit) : AddressSpace := edits.foldl apply .empty

/-- Whether a step maps one more area in the space at hand. -/
def isInsertion : Edit → Bool
  | insert _ | push _ => true
  | regions _ | image _ | copy => false

variable {s : AddressSpace} {fault : Fault}

section

variable {P : AddressSpace → Prop} (hP : AddressSpace.Invariant P)

include hP

/-- A step keeps an invariant of mapping if it keeps it where it pushes an area. -/
theorem build_invariant {e : Edit} (h : P s)
    (hpush : ∀ a s', e = .push a → s.push a = .ok s' → P s') : P (e.build s).space := by
  cases e with
  | insert r => exact hP.insertAll h [r]
  | push a =>
    rw [build]
    split
    · rename_i s' hs
      exact hpush a s' rfl hs
    · exact h
  | regions rs => exact hP.insertAll hP.empty rs
  | image file => exact Elf.load_invariant hP file
  | copy =>
    rw [build, AddressSpace.copy_eq]
    exact h

/-- An invariant of mapping that the pushes of a history keep holds after the history. -/
theorem run_invariant {edits : List Edit}
    (hpush : ∀ a, push a ∈ edits → ∀ s s' : AddressSpace, P s → s.push a = .ok s' → P s') :
    P (run edits) := by
  suffices hfold : ∀ s, P s → P (edits.foldl apply s) from hfold .empty hP.empty
  induction edits with
  | nil => exact fun s h => h
  | cons e rest ih =>
    intro s h
    apply ih (fun a ha => hpush a (List.mem_cons_of_mem e ha))
    rw [apply]
    split
    · apply build_invariant hP h
      rintro a s' rfl hs
      exact hpush a List.mem_cons_self s s' h hs
    · exact h

end

theorem build_apart (h : s.extents.Pairwise Extent.Apart) (e : Edit) :
    (e.build s).space.extents.Pairwise Extent.Apart :=
  build_invariant AddressSpace.invariant_apart h fun _ _ _ hs => AddressSpace.apart_push h hs

theorem run_apart (edits : List Edit) : (run edits).extents.Pairwise Extent.Apart :=
  run_invariant AddressSpace.invariant_apart fun _ _ _ _ h hs => AddressSpace.apart_push h hs

theorem space_of_failed {e : Edit} (he : e.isInsertion = true)
    (h : (e.build s).result = .error fault) : (e.build s).space = s := by
  cases e with
  | insert r =>
    rw [build, AddressSpace.insertAll] at h ⊢
    split at h
    · rfl
    · cases h
  | push a =>
    rw [build] at h ⊢
    split at h
    · cases h
    · rfl
  | regions rs => cases he
  | image file => cases he
  | copy => cases he

/-- Every address space that a history of steps makes is tidy, and so is what its next step leaves,
whether it fails or not. A failed mapping changes nothing, and a copy always succeeds. -/
theorem run_tidy (edits : List Edit) :
    (run edits).Tidy ∧ (∀ e : Edit, (e.build (run edits)).space.Tidy) ∧
    (∀ (e : Edit) (fault : Fault), e.isInsertion = true →
      (e.build (run edits)).result = .error fault → (e.build (run edits)).space = run edits) ∧
    (run edits).rebuilt = .ok (run edits).copy.areas ∧ (run edits).copy = run edits := by
  refine ⟨?_, ?_, ?_, AddressSpace.rebuilt_eq _, AddressSpace.copy_eq _⟩
  · exact AddressSpace.tidy_of_apart (run_apart edits)
  · intro e
    exact AddressSpace.tidy_of_apart (build_apart (run_apart edits) e)
  · intro e fault he h
    exact space_of_failed he h

/-- A second region that reaches into the first is refused. -/
theorem run_tidy_overlap :
    let first : Edit := .insert ⟨⟨0x1000⟩, ⟨0x3000⟩, .all⟩
    let second : Edit := .insert ⟨⟨0x2fff⟩, ⟨0x4001⟩, .all⟩
    (second.build (run [first])).result = .error (.refused (.alreadyMapped ⟨2⟩)) ∧
      (second.build (run [first])).space = run [first] := by
  intro first second
  have hfail : (second.build (run [first])).result = .error (.refused (.alreadyMapped ⟨2⟩)) := by
    decide +kernel
  exact ⟨hfail, (run_tidy [first]).2.2.1 second _ rfl hfail⟩

end Edit

end Lifecycle
