import Mathlib.Logic.Basic
import Lifecycle.Proofs.Memory.Pages
/-!
# What can be mapped

An area is described by the numbers of its first page and of its end page. Two areas lie apart
unless each starts before the other ends. A region fits if it does not end before it starts, starts
below the address limit and does not reach beyond it. Mapping a region succeeds exactly when it fits
and lies apart from everything mapped before, it adds the region at the end of the list, and it is
refused otherwise. A list of regions can be mapped exactly when every region fits and all areas, the
old and the new ones, lie pairwise apart.
-/

namespace Lifecycle

/-- The pages from `first` up to, but not including, `stop`. -/
structure Extent where
  first : Nat
  stop : Nat
  access : Access
deriving DecidableEq

namespace Extent

/-- One of the two ends before the other starts. -/
def Apart (e f : Extent) : Prop := ¬(e.first < f.stop ∧ f.first < e.stop)

instance (e f : Extent) : Decidable (e.Apart f) := inferInstanceAs (Decidable (¬_))

theorem Apart.symm {e f : Extent} (h : e.Apart f) : f.Apart e := fun hf => h hf.symm

end Extent

def Area.extent (a : Area) : Extent := ⟨a.range.lo.index.toNat, a.range.hi.index.toNat, a.access⟩

theorem PageRange.overlaps_iff {a b : Area} :
    a.range.overlaps b.range = true ↔ ¬a.extent.Apart b.extent := by
  simp only [PageRange.overlaps, Bool.and_eq_true, decide_eq_true_eq, UInt64.lt_iff_toNat_lt,
    Extent.Apart, Area.extent, not_not]

namespace Region

variable {r : Region} {a : Area}

def extent (r : Region) : Extent :=
  ⟨r.start.word.toNat / 4096, (r.stop.word.toNat + 4095) / 4096, r.access⟩

/-- A region from the start of one page to the start of another covers the pages between them. -/
theorem extent_of_bases {lo hi : Nat} (hlo : r.start.word.toNat = lo * 4096)
    (hhi : r.stop.word.toNat = hi * 4096) : r.extent = ⟨lo, hi, r.access⟩ := by
  rw [extent, hlo, hhi, Nat.mul_div_cancel _ (by decide)]
  congr 1
  omega

/-- The region is in order and within the address limit. -/
def Fits (r : Region) : Prop :=
  r.start.word.toNat ≤ r.stop.word.toNat ∧ r.start.word.toNat < addrLimit.toNat ∧
    r.stop.word.toNat ≤ addrLimit.toNat

instance (r : Region) : Decidable r.Fits := inferInstanceAs (Decidable (_ ∧ _))

theorem Fits.covering (h : r.Fits) : ∃ a, Area.covering r = .ok a ∧ a.extent = r.extent := by
  obtain ⟨horder, -, hstop⟩ := h
  rw [toNat_addrLimit] at hstop
  have hlt : r.stop.word.toNat + 4095 < 2 ^ 64 := by omega
  let hi : Page := ⟨UInt64.ofNat ((r.stop.word.toNat + 4095) / 4096)⟩
  have hhi : hi.index.toNat = (r.stop.word.toNat + 4095) / 4096 :=
    UInt64.toNat_ofNat_of_lt' (Nat.lt_of_le_of_lt (Nat.div_le_self _ _) hlt)
  have hceil : r.stop.ceil? = some hi := Addr.ceil?_eq_some.mpr ⟨hlt, hhi⟩
  have hle : r.start.floor.index ≤ hi.index := by
    rw [UInt64.le_iff_toNat_le, Addr.toNat_floor, hhi]
    omega
  refine ⟨⟨⟨r.start.floor, hi, hle⟩, r.access⟩, ?_, ?_⟩
  · simp only [Area.covering, hceil, PageRange.between, hle, dif_pos, Except.map]
  · simp only [Area.extent, Region.extent, Addr.toNat_floor, hhi]

end Region

namespace AddressSpace

variable {s s' : AddressSpace} {a : Area} {r : Region} {fault : Fault}

/-- What is mapped, area by area. -/
def extents (s : AddressSpace) : List Extent := s.areas.map Area.extent

theorem maps_iff {p : Page} : s.maps p = true ↔
    ∃ e ∈ s.extents, e.first ≤ p.index.toNat ∧ p.index.toNat < e.stop := by
  simp only [maps, List.any_eq_true, Area.maps, PageRange.contains, Bool.and_eq_true,
    decide_eq_true_eq, UInt64.le_iff_toNat_le, UInt64.lt_iff_toNat_lt, extents, List.mem_map,
    exists_exists_and_eq_and, Area.extent]

theorem push_eq_ok : s.push a = .ok s' ↔
    a.range.hi.base.word.toNat ≤ addrLimit.toNat ∧ (∀ e ∈ s.extents, e.Apart a.extent) ∧
      s' = ⟨s.areas ++ [a]⟩ := by
  have hlimit : addrLimit < a.range.hi.base.word ↔
      ¬a.range.hi.base.word.toNat ≤ addrLimit.toNat := by
    rw [UInt64.lt_iff_toNat_lt, Nat.not_le]
  have hfind : s.areas.find? (·.range.overlaps a.range) = none ↔ ∀ e ∈ s.extents, e.Apart a.extent := by
    simp only [List.find?_eq_none, PageRange.overlaps_iff, not_not, extents, List.mem_map,
      forall_exists_index, and_imp, forall_apply_eq_imp_iff₂]
  simp only [push, hlimit]
  split
  · rename_i h
    simp only [h, false_and, reduceCtorEq]
  · rename_i h
    simp only [not_not.mp h, true_and, ← hfind]
    split
    · rename_i hother
      simp only [hother, reduceCtorEq, false_and]
    · rename_i hnone
      simp only [hnone, true_and, Except.ok.injEq]
      exact eq_comm

/-- Mapping an area is refused if it does not succeed. -/
theorem push_eq_error (h : s.push a = .error fault) : ∃ why, fault = .refused why := by
  simp only [push] at h
  split at h
  · cases h
    exact ⟨_, rfl⟩
  · split at h <;> cases h
    exact ⟨_, rfl⟩

theorem mem_push {b : Area} (h : s.push a = .ok s') : b ∈ s'.areas ↔ b ∈ s.areas ∨ b = a := by
  obtain ⟨-, -, rfl⟩ := push_eq_ok.mp h
  simp

theorem extents_push (h : s.push a = .ok s') : s'.extents = s.extents ++ [a.extent] := by
  obtain ⟨-, -, rfl⟩ := push_eq_ok.mp h
  simp only [extents, List.map_append, List.map_cons, List.map_nil]

/-- A region that fits is mapped as the area that covers it. -/
theorem insert_eq_push (h : r.Fits) (hcover : Area.covering r = .ok a) : s.insert r = s.push a := by
  obtain ⟨horder, hstart, hstop⟩ := h
  rw [insert, if_neg, if_neg, hcover]
  · rw [UInt64.lt_iff_toNat_lt]
    omega
  · rw [← Bool.not_eq_true, Addr.isValid_iff, UInt64.lt_iff_toNat_lt]
    omega

theorem insert_of_fits (h : r.Fits) : ∃ a, a.extent = r.extent ∧ s.insert r = s.push a := by
  obtain ⟨a, hcover, hextent⟩ := h.covering
  exact ⟨a, hextent, insert_eq_push h hcover⟩

theorem insert_of_not_fits (h : ¬r.Fits) : ∃ why, s.insert r = .error (.refused why) := by
  rw [insert]
  split
  · exact ⟨_, rfl⟩
  · rename_i hstart
    rw [← Bool.not_eq_true, Addr.isValid_iff, UInt64.lt_iff_toNat_lt] at hstart
    split
    · exact ⟨_, rfl⟩
    · rename_i hstop
      rw [UInt64.lt_iff_toNat_lt] at hstop
      simp only [Region.Fits] at h
      omega

theorem insert_eq_error (h : s.insert r = .error fault) : ∃ why, fault = .refused why := by
  by_cases hfits : r.Fits
  · obtain ⟨a, -, heq⟩ := insert_of_fits (s := s) hfits
    exact push_eq_error (heq ▸ h)
  · obtain ⟨why, heq⟩ := insert_of_not_fits (s := s) hfits
    rw [heq] at h
    cases h
    exact ⟨why, rfl⟩

/-- A region that was mapped fits, and was pushed as an area. -/
theorem push_of_insert (h : s.insert r = .ok s') :
    r.Fits ∧ ∃ a, a.extent = r.extent ∧ s.push a = .ok s' := by
  by_cases hfits : r.Fits
  · obtain ⟨a, hextent, heq⟩ := insert_of_fits (s := s) hfits
    exact ⟨hfits, a, hextent, heq ▸ h⟩
  · obtain ⟨why, heq⟩ := insert_of_not_fits (s := s) hfits
    rw [heq] at h
    cases h

theorem extents_insert (h : s.insert r = .ok s') : s'.extents = s.extents ++ [r.extent] := by
  obtain ⟨-, a, hextent, hpush⟩ := push_of_insert h
  rw [← hextent]
  exact extents_push hpush

/-- A region can be mapped if it fits and lies apart from what is mapped already. -/
theorem exists_insert_iff :
    (∃ s', s.insert r = .ok s') ↔ r.Fits ∧ ∀ e ∈ s.extents, e.Apart r.extent := by
  constructor
  · rintro ⟨s', h⟩
    obtain ⟨hfits, a, hextent, hpush⟩ := push_of_insert h
    obtain ⟨-, hapart, -⟩ := push_eq_ok.mp hpush
    exact ⟨hfits, hextent ▸ hapart⟩
  · rintro ⟨hfits, hapart⟩
    obtain ⟨a, hextent, heq⟩ := insert_of_fits (s := s) hfits
    have hhi : a.range.hi.index.toNat = (r.stop.word.toNat + 4095) / 4096 :=
      congrArg Extent.stop hextent
    have hstop := hfits.2.2
    have hbase : a.range.hi.base.word.toNat ≤ addrLimit.toNat := by
      rw [toNat_addrLimit] at hstop ⊢
      rw [Page.toNat_base_of_lt (by omega)]
      omega
    exact ⟨_, heq.trans (push_eq_ok.mpr ⟨hbase, hextent ▸ hapart, rfl⟩)⟩

/-- Adding one extent at the end keeps a list of pairwise separate ones separate. -/
theorem pairwise_concat_iff {es : List Extent} {e : Extent} (h : es.Pairwise Extent.Apart) :
    (es ++ [e]).Pairwise Extent.Apart ↔ ∀ f ∈ es, f.Apart e := by
  simp only [List.pairwise_append, h, List.pairwise_singleton, List.mem_singleton, forall_eq,
    true_and]

theorem apart_push (h : s.extents.Pairwise Extent.Apart) (hs : s.push a = .ok s') :
    s'.extents.Pairwise Extent.Apart := by
  rw [extents_push hs]
  exact (pairwise_concat_iff h).mpr (push_eq_ok.mp hs).2.1

theorem apart_insert (h : s.extents.Pairwise Extent.Apart) (hs : s.insert r = .ok s') :
    s'.extents.Pairwise Extent.Apart := by
  rw [extents_insert hs]
  exact (pairwise_concat_iff h).mpr (exists_insert_iff.mp ⟨s', hs⟩).2

/-- What holds of the empty space and is kept by every region that is mapped. -/
structure Invariant (P : AddressSpace → Prop) : Prop where
  empty : P .empty
  insert : ∀ {s s' : AddressSpace} {r : Region}, P s → s.insert r = .ok s' → P s'

/-- An invariant holds of what a list of regions leaves, however far the list was mapped. -/
theorem Invariant.insertAll {P : AddressSpace → Prop} (hP : Invariant P) (h : P s)
    (rs : List Region) : P (s.insertAll rs).space := by
  induction rs generalizing s with
  | nil => exact h
  | cons r rest ih =>
    rw [AddressSpace.insertAll]
    split
    · exact h
    · rename_i s' hs
      apply ih
      exact hP.insert h hs

theorem invariant_apart : Invariant fun s => s.extents.Pairwise Extent.Apart :=
  ⟨.nil, apart_insert⟩

theorem extents_insertAll {rs : List Region} (h : (s.insertAll rs).result = .ok ()) :
    (s.insertAll rs).space.extents = s.extents ++ rs.map Region.extent := by
  induction rs generalizing s with
  | nil => simp only [insertAll, List.map_nil, List.append_nil]
  | cons r rest ih =>
    rw [insertAll] at h ⊢
    split at h
    · cases h
    · rename_i s' hinsert
      rw [ih h, extents_insert hinsert, List.map_cons, List.append_assoc, List.singleton_append]

theorem insertAll_eq_error {rs : List Region} (h : (s.insertAll rs).result = .error fault) :
    ∃ why, fault = .refused why := by
  induction rs generalizing s with
  | nil => cases h
  | cons r rest ih =>
    rw [insertAll] at h
    split at h
    · rename_i hinsert
      cases h
      exact insert_eq_error hinsert
    · exact ih h

/-- A list of regions can be mapped if each fits and no two areas, old or new, overlap. -/
theorem insertAll_eq_ok {rs : List Region} (h : s.extents.Pairwise Extent.Apart) :
    (s.insertAll rs).result = .ok () ↔
      (∀ r ∈ rs, r.Fits) ∧ (s.extents ++ rs.map Region.extent).Pairwise Extent.Apart := by
  induction rs generalizing s with
  | nil =>
    simp only [insertAll, List.not_mem_nil, false_implies, implies_true, List.map_nil,
      List.append_nil, true_and, h]
  | cons r rest ih =>
    rw [List.forall_mem_cons, List.map_cons, List.append_cons, insertAll]
    cases hinsert : s.insert r with
    | ok s' =>
      obtain ⟨hfits, -⟩ := exists_insert_iff.mp ⟨s', hinsert⟩
      simp only [ih (apart_insert h hinsert), extents_insert hinsert, hfits, true_and]
    | error fault =>
      simp only [reduceCtorEq, false_iff]
      rintro ⟨⟨hfits, -⟩, hpairwise⟩
      have hapart := (pairwise_concat_iff h).mp (List.pairwise_append.mp hpairwise).1
      obtain ⟨s', hs'⟩ := exists_insert_iff.mpr ⟨hfits, hapart⟩
      rw [hinsert] at hs'
      cases hs'

end AddressSpace

end Lifecycle
