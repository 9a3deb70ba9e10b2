import Lifecycle.Proofs.Memory.Conflicts
/-!
# Lists of regions

A list of regions is mapped one region after the other, up to the first that is refused. What that
one is refused for can be read off the regions before it, as these are all mapped. A list is mapped as
a whole exactly if each region fits and no two of them overlap, which does not depend on their order;
and then the same pages are mapped in every order.
-/

namespace Lifecycle

namespace Region

variable {r : Region} {a b : Area}

/-- The first of some regions whose pages overlap those of a region. -/
def conflict? (r : Region) (earlier : List Region) : Option Region :=
  earlier.find? fun q => decide ¬r.extent.Apart q.extent

/-- The larger of the first pages of two regions. -/
def laterStart (r q : Region) : Page :=
  if q.start.floor.index ≤ r.start.floor.index then r.start.floor else q.start.floor

/-- What a region is refused for when some others have been mapped, unless it can be mapped too. -/
def refusal? (r : Region) (earlier : List Region) : Option Refusal :=
  if r.stop.word < r.start.word ∨ addrLimit ≤ r.start.word then some (.outOfRange r.start)
  else if addrLimit < r.stop.word then some (.outOfRange r.stop)
  else (r.conflict? earlier).map fun q => .alreadyMapped (r.laterStart q)

theorem toNat_laterStart (r q : Region) :
    (r.laterStart q).index.toNat = max r.extent.first q.extent.first := by
  have hr : r.start.floor.index.toNat = r.extent.first := Addr.toNat_floor _
  have hq : q.start.floor.index.toNat = q.extent.first := Addr.toNat_floor _
  simp only [laterStart, UInt64.le_iff_toNat_le, hr, hq]
  split <;> omega

/-- A region that fits is refused only for a conflict. -/
theorem refusal?_of_fits (h : r.Fits) (earlier : List Region) : r.refusal? earlier =
    (r.conflict? earlier).map fun q => .alreadyMapped (r.laterStart q) := by
  obtain ⟨horder, hstart, hstop⟩ := h
  rw [refusal?, if_neg, if_neg]
  · rw [UInt64.lt_iff_toNat_lt]
    omega
  · rw [UInt64.lt_iff_toNat_lt, UInt64.le_iff_toNat_le]
    omega

end Region

namespace AddressSpace

variable {s : AddressSpace} {a : Area} {r : Region} {earlier rs : List Region} {fault : Fault}

/-- The first area that a new one conflicts with is that of the first such region. -/
theorem map_conflict? (hs : s.extents = earlier.map Region.extent) (ha : a.extent = r.extent) :
    (s.conflict? a).map Area.extent = (r.conflict? earlier).map Region.extent := by
  rw [extents] at hs
  rw [conflict?, Region.conflict?, ha]
  let meets : Extent → Bool := fun e => decide ¬r.extent.Apart e
  calc (s.areas.find? (meets ∘ Area.extent)).map Area.extent
      = (s.areas.map Area.extent).find? meets := List.find?_map.symm
    _ = (earlier.map Region.extent).find? meets := by rw [hs]
    _ = (earlier.find? (meets ∘ Region.extent)).map Region.extent := List.find?_map

/-- A region that fits is refused exactly if it conflicts with one that was mapped before. -/
theorem insert_eq_of_fits (hs : s.extents = earlier.map Region.extent) (h : r.Fits) :
    s.insert r = .error fault ↔
      ∃ q, r.conflict? earlier = some q ∧ fault = .refused (.alreadyMapped (r.laterStart q)) := by
  obtain ⟨a, hcover, hextent⟩ := h.covering
  have hlimit : a.range.hi.base.word.toNat ≤ addrLimit.toNat :=
    Edit.Offers.limit (e := .insert r) ⟨h, hcover⟩
  have hconflict := map_conflict? hs hextent
  rw [insert_eq_push h hcover]
  cases hq : r.conflict? earlier with
  | none =>
    rw [hq, Option.map_none, Option.map_eq_none_iff] at hconflict
    have hapart : ∀ e ∈ s.extents, e.Apart a.extent := by
      intro e he
      obtain ⟨b, hb, rfl⟩ := List.mem_map.mp he
      by_contra hmeets
      obtain ⟨b', hb'⟩ := exists_conflict_iff.mpr ⟨b, hb, fun hab => hmeets hab.symm⟩
      rw [hconflict] at hb'
      cases hb'
    rw [push_eq_ok.mpr ⟨hlimit, hapart, rfl⟩]
    simp
  | some q =>
    rw [hq, Option.map_some] at hconflict
    obtain ⟨b, hb, hbq⟩ := Option.map_eq_some_iff.mp hconflict
    have hpage : a.laterStart b = r.laterStart q := by
      apply Page.ext
      rw [Area.toNat_laterStart, Region.toNat_laterStart, hextent, hbq]
    rw [(push_eq_alreadyMapped hlimit).mpr ⟨b, hb, hpage⟩]
    simp [eq_comm]

/-- What a region is refused for follows from the regions that were mapped before. -/
theorem insert_eq_error_iff (hs : s.extents = earlier.map Region.extent) :
    s.insert r = .error fault ↔ ∃ why, r.refusal? earlier = some why ∧ fault = .refused why := by
  by_cases hfits : r.Fits
  · rw [insert_eq_of_fits hs hfits, Region.refusal?_of_fits hfits]
    simp
  · rw [Region.Fits] at hfits
    rw [insert, Region.refusal?]
    have hvalid : r.start.isValid = false ↔ addrLimit ≤ r.start.word := by
      rw [← Bool.not_eq_true, Addr.isValid_iff, UInt64.le_iff_toNat_le, Nat.not_lt]
    simp only [hvalid]
    split
    · simp [eq_comm]
    · rename_i hstart
      rw [if_pos, if_pos]
      · simp [eq_comm]
      all_goals
        rw [UInt64.lt_iff_toNat_lt, UInt64.le_iff_toNat_le] at hstart
        rw [UInt64.lt_iff_toNat_lt]
        omega

theorem insertAll_of_insert {s' : AddressSpace} (h : s.insert r = .ok s') (rest : List Region) :
    s.insertAll (r :: rest) = s'.insertAll rest := by
  rw [insertAll, h]

/-- Regions that are mapped one after the other. -/
theorem insertAll_append {before : List Region} (h : (s.insertAll before).result = .ok ())
    (rest : List Region) :
    s.insertAll (before ++ rest) = (s.insertAll before).space.insertAll rest := by
  induction before generalizing s with
  | nil => rfl
  | cons r before ih =>
    cases hinsert : s.insert r with
    | error fault =>
      rw [insertAll, hinsert] at h
      cases h
    | ok s' =>
      rw [insertAll_of_insert hinsert] at h
      rw [List.cons_append, insertAll_of_insert hinsert, insertAll_of_insert hinsert]
      exact ih h

/-- A list of regions is refused with the fault of one region, when those before it are mapped. -/
theorem insertAll_eq_error_iff : (s.insertAll rs).result = .error fault ↔
    ∃ before r after, rs = before ++ r :: after ∧ (s.insertAll before).result = .ok () ∧
      (s.insertAll before).space.insert r = .error fault := by
  constructor
  · induction rs generalizing s with
    | nil =>
      intro h
      cases h
    | cons r rest ih =>
      intro h
      rw [insertAll] at h
      split at h
      · rename_i hinsert
        cases h
        exact ⟨[], r, rest, rfl, rfl, hinsert⟩
      · rename_i s' hinsert
        obtain ⟨before, r', after, rfl, hbefore, hfault⟩ := ih h
        have hnext := insertAll_of_insert hinsert before
        exact ⟨r :: before, r', after, rfl, by rw [hnext, hbefore], by rw [hnext, hfault]⟩
  · rintro ⟨before, r, after, rfl, hbefore, hfault⟩
    rw [insertAll_append hbefore, insertAll, hfault]

/-- The page count is a sum over the extents. -/
theorem pageCount_eq (s : AddressSpace) :
    s.pageCount = (s.extents.map fun e => e.stop - e.first).sum := by
  rw [pageCount, ← List.sum_eq_foldl, extents, List.map_map]
  rfl

/-- A list of regions is mapped exactly if each region is in order and within the limit and no two of
them overlap. The areas are then the page ranges of the regions, with their permissions, in the order
of the list. Otherwise the list is refused, and with what its first region that cannot be mapped is
refused for after those before it. In any other order of the regions the list is accepted just as
well, with the same number of pages and the same pages mapped. -/
theorem ofRegions_exact (rs : List Region) :
    ((ofRegions rs).result = .ok () ↔
      (∀ r ∈ rs, r.Fits) ∧ (rs.map Region.extent).Pairwise Extent.Apart) ∧
    ((ofRegions rs).result = .ok () → (ofRegions rs).space.extents = rs.map Region.extent) ∧
    (∀ fault, (ofRegions rs).result = .error fault ↔
      ∃ before r after why, rs = before ++ r :: after ∧ (ofRegions before).result = .ok () ∧
        r.refusal? before = some why ∧ fault = .refused why) ∧
    ∀ rs', rs.Perm rs' →
      ((ofRegions rs').result = .ok () ↔ (ofRegions rs).result = .ok ()) ∧
      ((ofRegions rs).result = .ok () →
        (ofRegions rs').space.pageCount = (ofRegions rs).space.pageCount ∧
        ∀ p, (ofRegions rs').space.maps p = (ofRegions rs).space.maps p) := by
  have haccept : ∀ rs : List Region, (ofRegions rs).result = .ok () ↔
      (∀ r ∈ rs, r.Fits) ∧ (rs.map Region.extent).Pairwise Extent.Apart :=
    fun rs => insertAll_eq_ok .nil
  have hextents : ∀ {rs : List Region}, (ofRegions rs).result = .ok () →
      (ofRegions rs).space.extents = rs.map Region.extent :=
    fun {rs} h => extents_insertAll h
  refine ⟨haccept rs, hextents, fun fault => ?_, fun rs' hperm => ?_⟩
  · rw [ofRegions, insertAll_eq_error_iff]
    constructor
    · rintro ⟨before, r, after, hrs, hbefore, hfault⟩
      obtain ⟨why, hwhy, rfl⟩ := (insert_eq_error_iff (hextents hbefore)).mp hfault
      exact ⟨before, r, after, why, hrs, hbefore, hwhy, rfl⟩
    · rintro ⟨before, r, after, why, hrs, hbefore, hwhy, rfl⟩
      exact ⟨before, r, after, hrs, hbefore,
        (insert_eq_error_iff (hextents hbefore)).mpr ⟨why, hwhy, rfl⟩⟩
  · have hsame : (ofRegions rs').result = .ok () ↔ (ofRegions rs).result = .ok () := by
      rw [haccept, haccept, (hperm.map Region.extent).pairwise_iff Extent.Apart.symm]
      simp only [hperm.mem_iff]
    refine ⟨hsame, fun hok => ?_⟩
    have hother := hextents (hsame.mpr hok)
    rw [pageCount_eq, pageCount_eq, hother, hextents hok]
    refine ⟨((hperm.map _).map _).sum_eq.symm, fun p => ?_⟩
    rw [Bool.eq_iff_iff, maps_iff, maps_iff, hother, hextents hok]
    simp only [(hperm.map Region.extent).mem_iff]

/-- Two regions are mapped in either order, and a third one that reaches to the end of the 64-bit
range is refused for that, not for the overlap further on in the list. -/
theorem ofRegions_shuffled :
    let text : Region := ⟨⟨0x1000⟩, ⟨0x2800⟩, .all⟩
    let data : Region := ⟨⟨0x3000⟩, ⟨0x4000⟩, .all⟩
    let high : Region := ⟨⟨0x5000⟩, ⟨0xffffffffffffffff⟩, .all⟩
    ([text, data].Perm [data, text] ∧ (ofRegions [text, data]).result = .ok () ∧
      (ofRegions [data, text]).result = .ok () ∧
      (ofRegions [data, text]).space.pageCount = 3 ∧ (ofRegions [data, text]).space.maps ⟨2⟩ = true) ∧
    (ofRegions [text, high, text]).result = .error (.refused (.outOfRange high.stop)) := by
  intro text data high
  have hperm : [text, data].Perm [data, text] := .swap ..
  have hok : (ofRegions [text, data]).result = .ok () := by
    apply (ofRegions_exact [text, data]).1.mpr
    decide +kernel
  obtain ⟨hsame, hpages⟩ := (ofRegions_exact [text, data]).2.2.2 _ hperm
  obtain ⟨hcount, hmaps⟩ := hpages hok
  refine ⟨⟨hperm, hok, hsame.mpr hok, ?_, ?_⟩, ?_⟩
  · rw [hcount]
    decide +kernel
  · rw [hmaps]
    decide +kernel
  · apply ((ofRegions_exact [text, high, text]).2.2.1 _).mpr
    exact ⟨[text], high, [text], .outOfRange high.stop, rfl, by decide +kernel, by decide +kernel, rfl⟩

end AddressSpace

end Lifecycle
