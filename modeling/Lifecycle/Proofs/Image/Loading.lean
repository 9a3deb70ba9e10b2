import Lifecycle.Proofs.Memory.Spaces
import Lifecycle.Image.Elf
/-!
# Which images load, and where

An image is loadable when its headers are whole and well placed, every program header is of a known
kind, every loadable segment lies inside the file and below the address limit, the pages of the
segments lie pairwise apart, and a guard page, two pages of stack and the trap context still fit
above them. Exactly the loadable images are accepted. Their areas are the segments in the order of
their headers, the stack and the trap context; the guard page and the trampoline stay unmapped. An
image whose file header is cut off is a read out of bounds; any other image that is not loadable is
refused.
-/

namespace Lifecycle

namespace Extent

/-- The greatest end page, or 0 if there is none. -/
def top (es : List Extent) : Nat := (es.map stop).foldr max 0

theorem top_concat (es : List Extent) (e : Extent) : top (es ++ [e]) = max (top es) e.stop := by
  induction es with
  | nil => exact Nat.max_comm _ _
  | cons f es ih =>
    change max f.stop (top (es ++ [e])) = max (max f.stop (top es)) e.stop
    rw [ih, Nat.max_assoc]

theorem stop_le_top {es : List Extent} {e : Extent} (h : e ∈ es) : e.stop ≤ top es := by
  induction es with
  | nil => cases h
  | cons f es ih =>
    change e.stop ≤ max f.stop (top es)
    rcases List.mem_cons.mp h with rfl | h
    · exact Nat.le_max_left _ _
    · exact Nat.le_trans (ih h) (Nat.le_max_right _ _)

theorem top_le {es : List Extent} {n : Nat} (h : ∀ e ∈ es, e.stop ≤ n) : top es ≤ n := by
  induction es with
  | nil => exact Nat.zero_le n
  | cons f es ih =>
    change max f.stop (top es) ≤ n
    rw [List.forall_mem_cons] at h
    exact Nat.max_le.mpr ⟨h.1, ih h.2⟩

end Extent

namespace Elf

theorem field_lt (file : Bytes) (off len : Nat) : field file off len < 256 ^ len := by
  induction len generalizing off with
  | zero => exact Nat.one_pos
  | succ len ih =>
    have hbyte : (file.getD off 0).toNat < 256 := UInt8.toNat_lt _
    have hrest := ih (off + 1)
    rw [field, Nat.pow_succ]
    omega

/-- The file header for a width is there in full. -/
structure Headed (file : Bytes) (w : Width) : Prop where
  marked : file.toList.take 4 = magic
  classed : Width.ofClass? (file.getD 4 0) = some w
  whole : w.headerSize ≤ file.size

/-- The file ends after its class byte and before the end of its file header. -/
def CutOff (file : Bytes) : Prop :=
  16 ≤ file.size ∧ file.toList.take 4 = magic ∧
    ∃ w, Width.ofClass? (file.getD 4 0) = some w ∧ file.size < w.headerSize

theorem Headed.unique {file : Bytes} {w w' : Width} (h : Headed file w) (h' : Headed file w') :
    w = w' :=
  Option.some_inj.mp (h.classed.symm.trans h'.classed)

theorem Headed.not_cutOff {file : Bytes} {w : Width} (h : Headed file w) : ¬CutOff file := by
  rintro ⟨-, -, w', hclass, hcut⟩
  obtain rfl := Option.some_inj.mp (h.classed.symm.trans hclass)
  exact Nat.not_lt.mpr h.whole hcut

namespace Header

variable {file : Bytes} {h : Header} {fault : Fault}

/-- What becomes of the file header. -/
theorem read_cases (file : Bytes) :
    (∃ w, Headed file w ∧ read file = .ok (fields file w)) ∨
    (CutOff file ∧ read file = .error .outOfBounds) ∨
    ((∀ w, ¬Headed file w) ∧ ¬CutOff file ∧ ∃ why, read file = .error (.refused why)) := by
  rw [read]
  split
  · rename_i hshort
    right; right
    refine ⟨?_, fun hcut => Nat.not_lt.mpr hcut.1 hshort, _, rfl⟩
    rintro (_ | _) hw
    · have hsize : 52 ≤ file.size := hw.whole
      omega
    · have hsize : 64 ≤ file.size := hw.whole
      omega
  · rename_i hlong
    split
    · rename_i hmagic
      exact .inr (.inr ⟨fun w hw => hmagic hw.marked, fun hcut => hmagic hcut.2.1, _, rfl⟩)
    · rename_i hmagic
      have hmagic := Decidable.not_not.mp hmagic
      split
      · rename_i hclass
        right; right
        refine ⟨fun w hw => ?_, ?_, _, rfl⟩
        · have hw := hw.classed
          rw [hclass] at hw
          cases hw
        · rintro ⟨-, -, w, hw, -⟩
          rw [hclass] at hw
          cases hw
      · rename_i w hclass
        split
        · rename_i hcut
          exact .inr (.inl ⟨⟨Nat.not_lt.mp hlong, hmagic, w, hclass, hcut⟩, rfl⟩)
        · rename_i hwhole
          exact .inl ⟨w, ⟨hmagic, hclass, Nat.not_lt.mp hwhole⟩, rfl⟩

/-- A file header that is there in full is read. -/
theorem read_of_headed {w : Width} (hw : Headed file w) : read file = .ok (fields file w) := by
  rcases read_cases file with ⟨w', hw', hread⟩ | ⟨hcut, -⟩ | ⟨hnone, -⟩
  · rw [hread, hw.unique hw']
  · exact absurd hcut hw.not_cutOff
  · exact absurd hw (hnone w)

/-- The program header table is aligned and inside the file. -/
structure Placed (h : Header) (size : Nat) : Prop where
  roomy : 0 < h.count → h.width.entryMin ≤ h.entrySize
  aligned : h.width.wordSize ∣ h.tableOffset
  entriesAligned : h.width.wordSize ∣ h.entrySize
  inside : h.tableOffset + h.count * h.entrySize ≤ size

theorem checkTable_eq_ok {size : Nat} : h.checkTable size = .ok () ↔ h.Placed size := by
  rw [checkTable]
  split
  · rename_i hsmall
    simp only [reduceCtorEq, false_iff]
    intro hp
    exact Nat.not_lt.mpr (hp.roomy hsmall.1) hsmall.2
  · rename_i hroomy
    split
    · rename_i hodd
      simp only [reduceCtorEq, false_iff]
      intro hp
      rcases hodd with hodd | hodd
      · exact hodd (Nat.mod_eq_zero_of_dvd hp.aligned)
      · exact hodd (Nat.mod_eq_zero_of_dvd hp.entriesAligned)
    · rename_i heven
      rw [not_or, not_not, not_not] at heven
      split
      · rename_i houtside
        simp only [reduceCtorEq, false_iff]
        intro hp
        exact Nat.not_lt.mpr hp.inside houtside
      · rename_i hinside
        simp only [true_iff]
        exact ⟨fun hpos => Nat.not_lt.mp fun hsmall => hroomy ⟨hpos, hsmall⟩,
          Nat.dvd_of_mod_eq_zero heven.1, Nat.dvd_of_mod_eq_zero heven.2, Nat.not_lt.mp hinside⟩

/-- Every entry of a well-placed table holds a program header and is inside the file. -/
theorem Placed.entry {size i : Nat} (hp : h.Placed size) (hi : i < h.count) :
    h.width.entryMin ≤ h.entrySize ∧ h.tableOffset + i * h.entrySize + h.entrySize ≤ size := by
  refine ⟨hp.roomy (Nat.zero_lt_of_lt hi), ?_⟩
  have hlast : (i + 1) * h.entrySize ≤ h.count * h.entrySize := Nat.mul_le_mul_right _ hi
  rw [Nat.succ_mul] at hlast
  have hinside := hp.inside
  omega

theorem checkTable_eq_error {size : Nat} (hc : h.checkTable size = .error fault) :
    ∃ why, fault = .refused why := by
  rw [checkTable] at hc
  repeat' split at hc
  all_goals cases hc
  all_goals exact ⟨_, rfl⟩

/-- The program headers in the order of the table. -/
def segments (h : Header) (file : Bytes) : List Segment := (List.range h.count).map (h.segment file)

end Header

namespace Segment

variable {s : Segment} {size : Nat} {r : Region} {fault : Fault}

def extent (s : Segment) : Extent := ⟨s.addr / 4096, (s.addr + s.memSize + 4095) / 4096, s.access⟩

/-- The contents lie inside the file and the memory below the address limit. -/
structure Fits (s : Segment) (size : Nat) : Prop where
  noWrap : s.offset + s.fileSize < UInt64.size
  inFile : s.offset + s.fileSize ≤ size
  startBelow : s.addr < addrLimit.toNat
  stopBelow : s.addr + s.memSize ≤ addrLimit.toNat

/-- The pages of the segments that are loaded. -/
def extents (ss : List Segment) : List Extent := (ss.filter isLoad).map extent

theorem extents_append (ss ss' : List Segment) : extents (ss ++ ss') = extents ss ++ extents ss' := by
  rw [extents, List.filter_append, List.map_append]
  rfl

@[simp] theorem extents_nil : extents [] = [] := rfl

theorem extents_load (h : s.isLoad = true) : extents [s] = [s.extent] := by
  rw [extents, List.filter_cons_of_pos h]
  rfl

theorem extents_other (h : ¬s.isLoad = true) : extents [s] = [] := by
  rw [extents, List.filter_cons_of_neg h]
  rfl

theorem region_eq_error (h : s.region size = .error fault) : ∃ why, fault = .refused why := by
  simp only [region] at h
  repeat' split at h
  all_goals cases h
  all_goals exact ⟨_, rfl⟩

/-- A segment whose contents are in the file and whose end fits a word asks for its own pages. -/
theorem region_eq_ok (h : s.region size = .ok r) :
    r.extent = s.extent ∧ (r.Fits ↔ s.Fits size) := by
  simp only [region] at h
  split at h
  · cases h
  · rename_i hwrap
    split at h
    · cases h
    · rename_i hin
      split at h
      · cases h
      · rename_i hend
        cases h
        rw [UInt64.size] at hend
        have hstart : (UInt64.ofNat s.addr).toNat = s.addr := UInt64.toNat_ofNat_of_lt' (by
          rw [UInt64.size]; omega)
        have hstop : (UInt64.ofNat (s.addr + s.memSize)).toNat = s.addr + s.memSize :=
          UInt64.toNat_ofNat_of_lt' (Nat.not_le.mp hend)
        constructor
        · rw [Region.extent, extent, hstart, hstop]
        · rw [Region.Fits, hstart, hstop]
          constructor
          · rintro ⟨-, hlo, hhi⟩
            exact ⟨Nat.not_le.mp hwrap, Nat.not_lt.mp hin, hlo, hhi⟩
          · rintro ⟨-, -, hlo, hhi⟩
            exact ⟨Nat.le_add_right _ _, hlo, hhi⟩

theorem Fits.region (h : s.Fits size) : ∃ r, s.region size = .ok r := by
  have hend := h.stopBelow
  rw [toNat_addrLimit] at hend
  rw [Segment.region, if_neg (Nat.not_le.mpr h.noWrap), if_neg (Nat.not_lt.mpr h.inFile), if_neg]
  · exact ⟨_, rfl⟩
  · rw [UInt64.size]
    omega

end Segment

namespace Layout

variable {l l' : Layout} {h : Header} {file : Bytes} {i : Nat} {fault : Fault} {r : Region}

/-- The areas lie apart and below the address limit, and the top is the greatest end page. -/
structure Sound (l : Layout) : Prop where
  apart : l.space.extents.Pairwise Extent.Apart
  below : ∀ e ∈ l.space.extents, e.stop ≤ 2 ^ 26
  top : l.top.index.toNat = Extent.top l.space.extents

theorem Sound.start : start.Sound := ⟨.nil, nofun, rfl⟩

theorem Sound.top_le (hl : l.Sound) : Extent.top l.space.extents ≤ 2 ^ 26 := Extent.top_le hl.below

theorem add_eq_error (h : l.add r = .error fault) : ∃ why, fault = .refused why := by
  rw [add] at h
  split at h
  · rename_i hinsert
    cases h
    exact AddressSpace.insert_eq_error hinsert
  · rename_i space hinsert
    -- a region that could be mapped ends at or below the limit, so its end rounds up
    obtain ⟨hfits, -⟩ := AddressSpace.exists_insert_iff.mp ⟨space, hinsert⟩
    obtain ⟨a, hcover, -⟩ := hfits.covering
    split at h
    · rename_i hnone
      rw [Area.covering, hnone] at hcover
      cases hcover
    · cases h

theorem Sound.exists_add_iff (hl : l.Sound) :
    (∃ l', l.add r = .ok l') ↔ r.Fits ∧ (l.space.extents ++ [r.extent]).Pairwise Extent.Apart := by
  rw [AddressSpace.pairwise_concat_iff hl.apart, ← AddressSpace.exists_insert_iff]
  constructor
  · rintro ⟨l', h⟩
    rw [add] at h
    split at h
    · cases h
    · rename_i space hinsert
      exact ⟨space, hinsert⟩
  · rintro ⟨space, hinsert⟩
    cases hadd : l.add r with
    | ok l' => exact ⟨l', rfl⟩
    | error fault =>
      obtain ⟨why, rfl⟩ := add_eq_error hadd
      rw [add, hinsert] at hadd
      simp only at hadd
      split at hadd <;> cases hadd

theorem Sound.add (hl : l.Sound) (h : l.add r = .ok l') :
    l'.Sound ∧ l'.space.extents = l.space.extents ++ [r.extent] := by
  obtain ⟨⟨-, -, hbelow⟩, hapart⟩ := hl.exists_add_iff.mp ⟨l', h⟩
  rw [Layout.add] at h
  split at h
  · cases h
  · rename_i space hinsert
    have hextents := AddressSpace.extents_insert hinsert
    split at h
    · cases h
    · rename_i stop hceil
      cases h
      obtain ⟨-, hstop⟩ := Addr.ceil?_eq_some.mp hceil
      have hstop : stop.index.toNat = r.extent.stop := hstop
      refine ⟨⟨?_, ?_, ?_⟩, hextents⟩
      · rw [hextents]
        exact hapart
      · rw [hextents, List.forall_mem_append]
        refine ⟨hl.below, List.forall_mem_singleton.mpr ?_⟩
        rw [toNat_addrLimit] at hbelow
        simp only [Region.extent]
        omega
      · rw [hextents, Extent.top_concat, ← hl.top, ← hstop]
        simp only [UInt64.lt_iff_toNat_lt]
        split <;> omega

theorem place_eq_error (hp : l.place h file i = .error fault) : ∃ why, fault = .refused why := by
  simp only [place] at hp
  split at hp
  · cases hp
    exact ⟨_, rfl⟩
  · split at hp
    · split at hp
      · split at hp
        · rename_i hregion
          cases hp
          exact Segment.region_eq_error hregion
        · exact add_eq_error hp
      · cases hp
    · cases hp
      exact ⟨_, rfl⟩

/-- What a program header must be like to be placed. -/
structure Takes (l : Layout) (h : Header) (file : Bytes) (i : Nat) : Prop where
  table : 0 < h.tableOffset
  known : (h.segment file i).hasKnownKind = true
  fits : (h.segment file i).isLoad = true → (h.segment file i).Fits file.size
  apart : (l.space.extents ++ Segment.extents [h.segment file i]).Pairwise Extent.Apart

theorem Sound.exists_place_iff (hl : l.Sound) :
    (∃ l', l.place h file i = .ok l') ↔ l.Takes h file i := by
  by_cases htable : h.tableOffset = 0
  · simp only [place, htable, if_true, reduceCtorEq, exists_false, false_iff]
    intro ht
    exact Nat.ne_of_gt ht.table htable
  have hpos := Nat.pos_of_ne_zero htable
  by_cases hknown : ¬(h.segment file i).hasKnownKind = true
  · simp only [place, htable, if_false, hknown, reduceCtorEq, exists_false, false_iff]
    intro ht
    exact hknown ht.known
  rw [not_not] at hknown
  by_cases hload : ¬(h.segment file i).isLoad = true
  · simp only [place, htable, if_false, hknown, if_true, hload, Bool.false_eq_true,
      Except.ok.injEq, exists_eq', true_iff]
    refine ⟨hpos, hknown, fun h => absurd h hload, ?_⟩
    rw [Segment.extents_other hload, List.append_nil]
    exact hl.apart
  rw [not_not] at hload
  simp only [place, htable, if_false, hknown, if_true, hload]
  constructor
  · rintro ⟨l', hp⟩
    split at hp
    · cases hp
    · rename_i r hregion
      obtain ⟨hextent, hfits⟩ := Segment.region_eq_ok hregion
      obtain ⟨hr, hapart⟩ := hl.exists_add_iff.mp ⟨l', hp⟩
      refine ⟨hpos, hknown, fun _ => hfits.mp hr, ?_⟩
      rw [Segment.extents_load hload, ← hextent]
      exact hapart
  · intro ht
    obtain ⟨r, hregion⟩ := (ht.fits hload).region
    obtain ⟨hextent, hfits⟩ := Segment.region_eq_ok hregion
    simp only [hregion]
    apply hl.exists_add_iff.mpr
    refine ⟨hfits.mpr (ht.fits hload), ?_⟩
    rw [hextent, ← Segment.extents_load hload]
    exact ht.apart

theorem Sound.place (hl : l.Sound) (hp : l.place h file i = .ok l') :
    l'.Sound ∧ l'.space.extents = l.space.extents ++ Segment.extents [h.segment file i] := by
  simp only [Layout.place] at hp
  split at hp
  · cases hp
  · split at hp
    · split at hp
      · rename_i hload
        split at hp
        · cases hp
        · rename_i r hregion
          rw [Segment.extents_load hload, ← (Segment.region_eq_ok hregion).1]
          exact hl.add hp
      · rename_i hload
        cases hp
        rw [Segment.extents_other hload, List.append_nil]
        exact ⟨hl, rfl⟩
    · cases hp

theorem placeAll_eq_error {is : List Nat} (hp : (l.placeAll h file is).2 = .error fault) :
    ∃ why, fault = .refused why := by
  induction is generalizing l with
  | nil => cases hp
  | cons i rest ih =>
    rw [placeAll] at hp
    split at hp
    · rename_i herror
      cases hp
      exact place_eq_error herror
    · exact ih hp

theorem Sound.placeAll (hl : l.Sound) (h : Header) (file : Bytes) (is : List Nat) :
    (l.placeAll h file is).1.Sound := by
  induction is generalizing l with
  | nil => exact hl
  | cons i rest ih =>
    rw [Layout.placeAll]
    split
    · exact hl
    · rename_i l' hplace
      exact ih (hl.place hplace).1

theorem Sound.extents_placeAll {is : List Nat} (hl : l.Sound)
    (hp : (l.placeAll h file is).2 = .ok ()) : (l.placeAll h file is).1.space.extents =
      l.space.extents ++ Segment.extents (is.map (h.segment file)) := by
  induction is generalizing l with
  | nil => exact (List.append_nil _).symm
  | cons i rest ih =>
    rw [Layout.placeAll] at hp ⊢
    split at hp
    · cases hp
    · rename_i l' hplace
      obtain ⟨hl', hextents⟩ := hl.place hplace
      rw [ih hl' hp, hextents, List.append_assoc, ← Segment.extents_append]
      rfl

/-- The headers can be placed if each fits and all areas, old and new, lie apart. -/
theorem Sound.placeAll_eq_ok {is : List Nat} (hl : l.Sound) :
    (l.placeAll h file is).2 = .ok () ↔
      (is ≠ [] → 0 < h.tableOffset) ∧
      (∀ s ∈ is.map (h.segment file), s.hasKnownKind = true ∧ (s.isLoad = true → s.Fits file.size)) ∧
      (l.space.extents ++ Segment.extents (is.map (h.segment file))).Pairwise Extent.Apart := by
  induction is generalizing l with
  | nil =>
    simp only [Layout.placeAll, ne_eq, not_true_eq_false, List.map_nil, List.not_mem_nil,
      false_implies, implies_true, Segment.extents_nil, List.append_nil, hl.apart, and_self]
  | cons i rest ih =>
    have hcons : Segment.extents ((i :: rest).map (h.segment file)) =
        Segment.extents [h.segment file i] ++ Segment.extents (rest.map (h.segment file)) :=
      Segment.extents_append [h.segment file i] _
    rw [Layout.placeAll, hcons, List.map_cons, List.forall_mem_cons, ← List.append_assoc]
    cases hplace : l.place h file i with
    | ok l' =>
      obtain ⟨htable, hknown, hfits, -⟩ := hl.exists_place_iff.mp ⟨l', hplace⟩
      obtain ⟨hl', hextents⟩ := hl.place hplace
      rw [ih hl', hextents]
      constructor
      · rintro ⟨-, hrest, hapart⟩
        exact ⟨fun _ => htable, ⟨⟨hknown, hfits⟩, hrest⟩, hapart⟩
      · rintro ⟨-, ⟨-, hrest⟩, hapart⟩
        exact ⟨fun _ => htable, hrest, hapart⟩
    | error fault =>
      simp only [reduceCtorEq, false_iff]
      rintro ⟨htable, ⟨⟨hknown, hfits⟩, -⟩, hapart⟩
      have htakes : l.Takes h file i :=
        ⟨htable (by simp), hknown, hfits, (List.pairwise_append.mp hapart).1⟩
      obtain ⟨l', hl'⟩ := hl.exists_place_iff.mpr htakes
      rw [hplace] at hl'
      cases hl'

end Layout

/-- The stack above a guard page, and the trap context. -/
def reserved (top : Nat) : List Extent :=
  [⟨top + 1, top + 3, ⟨true, true, false, true⟩⟩,
    ⟨trapContext.toNat / 4096, trampoline.toNat / 4096, ⟨true, true, false, false⟩⟩]

theorem mem_reserved {top : Nat} {e : Extent} (h : e ∈ reserved top) :
    (e.first = top + 1 ∧ e.stop = top + 3) ∨ (e.first = 2 ^ 26 - 2 ∧ e.stop = 2 ^ 26 - 1) := by
  simp only [reserved, List.mem_cons, List.not_mem_nil, or_false] at h
  rcases h with rfl | rfl
  · exact .inl ⟨rfl, rfl⟩
  · right
    constructor
    · rw [toNat_trapContext, Nat.mul_div_cancel _ (by decide)]
    · rw [toNat_trampoline, Nat.mul_div_cancel _ (by decide)]

theorem reserved_pairwise {top : Nat} :
    (reserved top).Pairwise Extent.Apart ↔ ¬(top + 1 < 2 ^ 26 - 1 ∧ 2 ^ 26 - 2 < top + 3) := by
  rw [reserved, List.pairwise_pair, Extent.Apart, toNat_trapContext, toNat_trampoline,
    Nat.mul_div_cancel _ (by decide), Nat.mul_div_cancel _ (by decide)]

theorem Layout.Sound.reserved_apart {l : Layout} (hl : l.Sound) :
    Extent.top l.space.extents + 3 ≤ 2 ^ 26 ∧
      (l.space.extents ++ reserved (Extent.top l.space.extents)).Pairwise Extent.Apart ↔
    (Extent.top l.space.extents + 3) * 4096 ≤ trapContext.toNat := by
  have hbelow := hl.top_le
  rw [List.pairwise_append, reserved_pairwise, toNat_trapContext]
  generalize htop : Extent.top l.space.extents = top at hbelow ⊢
  constructor
  · rintro ⟨hfits, -, hpair, -⟩
    -- the stack ends within the limit, so it can only lie below the trap context
    omega
  · intro hroom
    refine ⟨by omega, hl.apart, by omega, ?_⟩
    intro e he f hf
    have hstop := Extent.stop_le_top he
    rw [htop] at hstop
    rw [Extent.Apart]
    rcases mem_reserved hf with hf | hf <;> omega

/-- The regions that are added to the segments. -/
def added (bottom sp : Addr) : List Region :=
  [⟨bottom, sp, ⟨true, true, false, true⟩⟩,
    ⟨⟨trapContext⟩, ⟨trampoline⟩, ⟨true, true, false, false⟩⟩]

section

variable {bottom sp : Addr} {top : Nat}

theorem extents_added (hb : bottom.word.toNat = (top + 1) * 4096)
    (hs : sp.word.toNat = (top + 3) * 4096) : (added bottom sp).map Region.extent = reserved top := by
  have hpage : trapContext.toNat / 4096 * 4096 = trapContext.toNat := by
    rw [toNat_trapContext, Nat.mul_div_cancel _ (by decide)]
  have hend : trampoline.toNat / 4096 * 4096 = trampoline.toNat := by
    rw [toNat_trampoline, Nat.mul_div_cancel _ (by decide)]
  rw [added, List.map_cons, List.map_cons, List.map_nil, Region.extent_of_bases hb hs,
    Region.extent_of_bases hpage.symm hend.symm]
  rfl

theorem fits_added (hb : bottom.word.toNat = (top + 1) * 4096)
    (hs : sp.word.toNat = (top + 3) * 4096) :
    (∀ r ∈ added bottom sp, r.Fits) ↔ top + 3 ≤ 2 ^ 26 := by
  have htrap : Region.Fits ⟨⟨trapContext⟩, ⟨trampoline⟩, ⟨true, true, false, false⟩⟩ := by
    simp only [Region.Fits, toNat_trapContext, toNat_trampoline, toNat_addrLimit]
    omega
  rw [added, List.forall_mem_cons, List.forall_mem_singleton, and_iff_left htrap, Region.Fits,
    toNat_addrLimit, hb, hs]
  omega

end

/-- The stack starts a page above the segments and is two pages long. -/
theorem Layout.Sound.exists_stack {l : Layout} (hl : l.Sound) :
    ∃ bottom sp : Addr, l.stack? = some (bottom.word, sp.word) ∧
      bottom.word.toNat = (Extent.top l.space.extents + 1) * 4096 ∧
      sp.word.toNat = (Extent.top l.space.extents + 3) * 4096 := by
  have htop := hl.top_le
  have hbase : l.top.base.word.toNat = Extent.top l.space.extents * 4096 := by
    rw [Page.toNat_base_of_lt (by rw [hl.top]; omega), hl.top]
  obtain ⟨bottom, hbottom⟩ :=
    exists_addr (n := (Extent.top l.space.extents + 1) * 4096) (by omega)
  obtain ⟨sp, hsp⟩ := exists_addr (n := (Extent.top l.space.extents + 3) * 4096) (by omega)
  have hlow : checkedAdd l.top.base.word pageSize = some bottom.word :=
    checkedAdd_eq_some.mpr (by rw [hbottom, hbase, toNat_pageSize]; omega)
  have hhigh : checkedAdd bottom.word stackSize = some sp.word :=
    checkedAdd_eq_some.mpr (by rw [hsp, hbottom, toNat_stackSize]; omega)
  refine ⟨bottom, sp, ?_, hbottom, hsp⟩
  rw [Layout.stack?, hlow]
  simp only [Option.bind_eq_bind, Option.bind_some, hhigh]
  rfl

/-- The stack and the trap context are added if they fit above the segments. -/
theorem finish_cases {l : Layout} (hl : l.Sound) (entry : Nat) :
    let top := Extent.top l.space.extents
    if (top + 3) * 4096 ≤ trapContext.toNat then
      ∃ sp : Addr, sp.word.toNat = (top + 3) * 4096 ∧
        (finish l entry).result = .ok ⟨sp, ⟨UInt64.ofNat entry⟩⟩ ∧
        (finish l entry).space.extents = l.space.extents ++ reserved top
    else ∃ why, (finish l entry).result = .error (.refused why) := by
  intro top
  obtain ⟨bottom, sp, hstack, hbottom, hsp⟩ := hl.exists_stack
  have hok : (l.space.insertAll (added bottom sp)).result = .ok () ↔
      (top + 3) * 4096 ≤ trapContext.toNat := by
    rw [AddressSpace.insertAll_eq_ok hl.apart, fits_added hbottom hsp, extents_added hbottom hsp]
    exact hl.reserved_apart
  have hfinish : finish l entry = ⟨(l.space.insertAll (added bottom sp)).space,
      (l.space.insertAll (added bottom sp)).result.map fun _ => ⟨sp, ⟨UInt64.ofNat entry⟩⟩⟩ := by
    unfold finish
    rw [hstack]
    rfl
  rw [hfinish]
  split
  · rename_i hroom
    have hresult := hok.mpr hroom
    refine ⟨sp, hsp, by rw [hresult]; rfl, ?_⟩
    rw [← extents_added hbottom hsp]
    exact AddressSpace.extents_insertAll hresult
  · rename_i hroom
    cases hresult : (l.space.insertAll (added bottom sp)).result with
    | ok u => exact absurd (hok.mp hresult) hroom
    | error fault =>
      obtain ⟨why, rfl⟩ := AddressSpace.insertAll_eq_error hresult
      exact ⟨why, rfl⟩

section

variable {P : AddressSpace → Prop} (hP : AddressSpace.Invariant P)

include hP

theorem Layout.add_invariant {l l' : Layout} {r : Region} (h : P l.space) (hadd : l.add r = .ok l') :
    P l'.space := by
  rw [Layout.add] at hadd
  split at hadd
  · cases hadd
  · rename_i space hinsert
    split at hadd
    · cases hadd
    · cases hadd
      exact hP.insert h hinsert

theorem Layout.place_invariant {l l' : Layout} {h : Header} {file : Bytes} {i : Nat}
    (hl : P l.space) (hp : l.place h file i = .ok l') : P l'.space := by
  simp only [Layout.place] at hp
  split at hp
  · cases hp
  · split at hp
    · split at hp
      · split at hp
        · cases hp
        · exact Layout.add_invariant hP hl hp
      · cases hp
        exact hl
    · cases hp

theorem Layout.placeAll_invariant {l : Layout} (hl : P l.space) (h : Header) (file : Bytes)
    (is : List Nat) : P (l.placeAll h file is).1.space := by
  induction is generalizing l with
  | nil => exact hl
  | cons i rest ih =>
    rw [Layout.placeAll]
    split
    · exact hl
    · rename_i l' hplace
      apply ih
      exact Layout.place_invariant hP hl hplace

theorem finish_invariant {l : Layout} (hl : P l.space) (entry : Nat) :
    P (finish l entry).space := by
  unfold finish
  split
  · exact hl
  · exact hP.insertAll hl _

/-- An invariant of mapping holds of what a load leaves, also of an image refused half-way. -/
theorem load_invariant (file : Bytes) : P (load file).space := by
  rw [load]
  split
  · exact hP.empty
  · rename_i h hread
    split
    · exact hP.empty
    · have hplaced := Layout.placeAll_invariant hP (l := .start) hP.empty h file (List.range h.count)
      split
      · rename_i l fault heq
        rw [heq] at hplaced
        exact hplaced
      · rename_i l u heq
        rw [heq] at hplaced
        exact finish_invariant hP hplaced h.entry

end

variable {file : Bytes} {w : Width}

/-- The program headers of a file of a given width. -/
def segments (file : Bytes) (w : Width) : List Segment := (Header.fields file w).segments file

/-- The pages of the segments that are loaded, in the order of their headers. -/
def loads (file : Bytes) (w : Width) : List Extent := Segment.extents (segments file w)

/-- What an image of a given width must be like to be loaded. -/
structure Loadable (file : Bytes) (w : Width) : Prop where
  headed : Headed file w
  placed : (Header.fields file w).Placed file.size
  table : 0 < (Header.fields file w).count → 0 < (Header.fields file w).tableOffset
  known : ∀ s ∈ segments file w, s.hasKnownKind = true
  fits : ∀ s ∈ segments file w, s.isLoad = true → s.Fits file.size
  apart : (loads file w).Pairwise Extent.Apart
  room : (Extent.top (loads file w) + 3) * 4096 ≤ trapContext.toNat

/-- The areas and the start of a loaded image. -/
structure Laid (file : Bytes) (w : Width) (space : AddressSpace) (start : Start) : Prop where
  areas : space.extents = loads file w ++ reserved (Extent.top (loads file w))
  stackTop : start.stackTop.word.toNat = (Extent.top (loads file w) + 3) * 4096
  entry : start.entry.word.toNat = (Header.fields file w).entry
  guarded : ∀ p : Page, p.index.toNat = Extent.top (loads file w) → space.maps p = false
  trampoline : space.maps (Addr.mk trampoline).floor = false

theorem entry_lt (file : Bytes) (w : Width) : (Header.fields file w).entry < UInt64.size := by
  cases w with
  | narrow => exact Nat.lt_of_lt_of_le (field_lt file 24 4) (by decide)
  | wide => exact field_lt file 24 8

theorem Laid.of_areas {space : AddressSpace} {sp : Addr}
    (areas : space.extents = loads file w ++ reserved (Extent.top (loads file w)))
    (stackTop : sp.word.toNat = (Extent.top (loads file w) + 3) * 4096)
    (room : (Extent.top (loads file w) + 3) * 4096 ≤ trapContext.toNat) :
    Laid file w space ⟨sp, ⟨UInt64.ofNat (Header.fields file w).entry⟩⟩ := by
  rw [toNat_trapContext] at room
  refine ⟨areas, stackTop, UInt64.toNat_ofNat_of_lt' (entry_lt file w), ?_, ?_⟩
  · intro p hp
    rw [← Bool.not_eq_true, AddressSpace.maps_iff, areas, hp]
    rintro ⟨e, he, hlo, hhi⟩
    rcases List.mem_append.mp he with he | he
    · exact Nat.not_lt.mpr (Extent.stop_le_top he) hhi
    · rcases mem_reserved he with he | he <;> omega
  · rw [← Bool.not_eq_true, AddressSpace.maps_iff, areas, Addr.toNat_floor, toNat_trampoline]
    rintro ⟨e, he, hlo, hhi⟩
    rcases List.mem_append.mp he with he | he
    · have hstop := Extent.stop_le_top he
      omega
    · rcases mem_reserved he with he | he <;> omega

/-- All program headers of a loadable image are placed, and the rest is added above them. -/
theorem Loadable.placed_all (h : Loadable file w) :
    ∃ l, Layout.start.placeAll (Header.fields file w) file
        (List.range (Header.fields file w).count) = (l, .ok ()) ∧
      load file = finish l (Header.fields file w).entry := by
  have hplaced : (Layout.start.placeAll (Header.fields file w) file
      (List.range (Header.fields file w).count)).2 = .ok () := by
    refine Layout.Sound.start.placeAll_eq_ok.mpr ⟨?_, fun s hs => ⟨h.known s hs, h.fits s hs⟩, h.apart⟩
    intro hne
    apply h.table
    apply Nat.pos_of_ne_zero
    intro hzero
    exact hne (by rw [hzero]; rfl)
  have hall : Layout.start.placeAll (Header.fields file w) file
      (List.range (Header.fields file w).count) = (_, .ok ()) := Prod.ext rfl hplaced
  refine ⟨_, hall, ?_⟩
  rw [load, Header.read_of_headed h.headed]
  simp only [Header.checkTable_eq_ok.mpr h.placed]
  rw [hall]

theorem load_of_loadable (h : Loadable file w) :
    ∃ start, (load file).result = .ok start ∧ Laid file w (load file).space start := by
  obtain ⟨l, hplaced, hload⟩ := h.placed_all
  have hall := congrArg Prod.snd hplaced
  have hsound := Layout.Sound.start.placeAll (Header.fields file w) file
    (List.range (Header.fields file w).count)
  have hextents := Layout.Sound.start.extents_placeAll hall
  rw [hplaced] at hsound hextents
  have hextents : l.space.extents = loads file w := hextents
  have hfinish := finish_cases hsound (Header.fields file w).entry
  rw [hextents, if_pos h.room, ← hload] at hfinish
  obtain ⟨sp, hsp, hresult, hareas⟩ := hfinish
  exact ⟨_, hresult, Laid.of_areas hareas hsp h.room⟩

theorem load_of_not_loadable (h : ¬Loadable file w) (hw : Headed file w) :
    ∃ why, (load file).result = .error (.refused why) := by
  have hread := Header.read_of_headed hw
  rw [load, hread]
  simp only
  cases htable : (Header.fields file w).checkTable file.size with
  | error fault =>
    obtain ⟨why, rfl⟩ := Header.checkTable_eq_error htable
    exact ⟨why, rfl⟩
  | ok u =>
    have hplaced := Header.checkTable_eq_ok.mp htable
    simp only
    split
    · rename_i l fault heq
      have hall := congrArg Prod.snd heq
      obtain ⟨why, rfl⟩ := Layout.placeAll_eq_error hall
      exact ⟨why, rfl⟩
    · rename_i l u heq
      have hall := congrArg Prod.snd heq
      have hsound := Layout.Sound.start.placeAll (Header.fields file w) file
        (List.range (Header.fields file w).count)
      have hextents := Layout.Sound.start.extents_placeAll hall
      obtain ⟨hpos, hsegments, hapart⟩ := Layout.Sound.start.placeAll_eq_ok.mp hall
      rw [heq] at hsound hextents
      have hextents : l.space.extents = loads file w := hextents
      have hfinish := finish_cases hsound (Header.fields file w).entry
      rw [hextents, if_neg] at hfinish
      · exact hfinish
      · intro hroom
        refine h ⟨hw, hplaced, fun hcount => hpos ?_, fun s hs => (hsegments s hs).1,
          fun s hs => (hsegments s hs).2, hapart, hroom⟩
        rw [ne_eq, List.range_eq_nil]
        exact Nat.ne_of_gt hcount

theorem loadable_of_load {start : Start} (h : (load file).result = .ok start) :
    ∃ w, Loadable file w := by
  rcases Header.read_cases file with ⟨w, hw, -⟩ | ⟨-, hread⟩ | ⟨-, -, why, hread⟩
  · refine ⟨w, ?_⟩
    apply Classical.by_contradiction
    intro hnot
    obtain ⟨why, hwhy⟩ := load_of_not_loadable hnot hw
    rw [hwhy] at h
    cases h
  · rw [load, hread] at h
    cases h
  · rw [load, hread] at h
    cases h

/-- A 32-bit image with one page of code at `0x1000`. -/
def onePage : Bytes := #[
  0x7f, 0x45, 0x4c, 0x46, 1, 1, 1, 0, 0, 0, 0, 0, 0, 0, 0, 0,
  2, 0, 3, 0, 1, 0, 0, 0, 0, 0x10, 0, 0, 52, 0, 0, 0,
  0, 0, 0, 0, 0, 0, 0, 0, 52, 0, 32, 0, 1, 0, 0, 0, 0, 0, 0, 0,
  1, 0, 0, 0, 0, 0, 0, 0, 0, 0x10, 0, 0, 0, 0, 0, 0,
  4, 0, 0, 0, 0, 0x10, 0, 0, 5, 0, 0, 0, 0, 0x10, 0, 0]

theorem segments_onePage : segments onePage .narrow = [⟨1, 5, 0, 0x1000, 4, 0x1000⟩] := by
  decide +kernel

theorem onePage_loadable : Loadable onePage .narrow := by
  have hfields : Header.fields onePage .narrow = ⟨.narrow, 0x1000, 52, 32, 1⟩ := by decide +kernel
  have hloads : loads onePage .narrow = [⟨1, 2, ⟨true, false, true, true⟩⟩] := by
    rw [loads, segments_onePage]
    decide
  refine ⟨⟨by decide +kernel, by decide +kernel, by decide +kernel⟩, ?_, ?_, ?_, ?_, ?_, ?_⟩
  · rw [hfields]
    exact ⟨by decide, by decide, by decide, by decide +kernel⟩
  · rw [hfields]
    decide
  · rw [segments_onePage]
    decide
  · rw [segments_onePage]
    intro s hs _
    rw [List.mem_singleton.mp hs]
    exact ⟨by decide +kernel, by decide +kernel, by decide +kernel, by decide +kernel⟩
  · rw [hloads]
    exact List.pairwise_singleton _ _
  · rw [hloads, toNat_trapContext]
    decide

end Elf

end Lifecycle
