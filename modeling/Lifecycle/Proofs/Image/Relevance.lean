import Lifecycle.Proofs.Image.Loading
/-!
# What a loader reads of an image

Two files are alike for the loader if they have the same magic number and class, the same file header
fields, and the same kind in every program header, with the same placement and permissions where it
is to be loaded. Files of one length that are alike are loaded or refused alike, whatever their other
bytes. The fields of a file are read from fixed places in its file header and in the entries of its
table, so it is enough that two files agree on the bytes there. All of them lie inside a file that is
loaded: bytes appended to it are never read, and a longer file passes every check of a length.
-/

namespace Lifecycle

namespace Elf

/-! ## Program headers that mean the same -/

namespace Segment

variable {s t : Segment} {size size' : Nat} {r : Region}

/-- The same kind and, for a segment that is loaded, the same placement and permissions. -/
structure Alike (s t : Segment) : Prop where
  kind : t.kind = s.kind
  placement : s.isLoad = true →
    t.offset = s.offset ∧ t.addr = s.addr ∧ t.fileSize = s.fileSize ∧ t.memSize = s.memSize
  flags : s.isLoad = true → ∀ i < 3, t.flags.testBit i = s.flags.testBit i

theorem Alike.hasKnownKind (h : s.Alike t) : t.hasKnownKind = s.hasKnownKind := by
  rw [Segment.hasKnownKind, Segment.hasKnownKind, h.kind]

theorem Alike.isLoad (h : s.Alike t) : t.isLoad = s.isLoad := by
  rw [Segment.isLoad, Segment.isLoad, h.kind]

theorem Alike.access (h : s.Alike t) (hload : s.isLoad = true) : t.access = s.access := by
  have hbit := h.flags hload
  rw [Segment.access, Segment.access, hbit 0 (by decide), hbit 1 (by decide), hbit 2 (by decide)]

theorem Alike.region (h : s.Alike t) (hload : s.isLoad = true) : t.region size = s.region size := by
  obtain ⟨hoffset, haddr, hfile, hmem⟩ := h.placement hload
  rw [Segment.region, Segment.region, hoffset, haddr, hfile, hmem, h.access hload]

/-- Contents inside a file are inside any longer one. -/
theorem region_mono (hle : size ≤ size') (h : s.region size = .ok r) : s.region size' = .ok r := by
  simp only [Segment.region] at h ⊢
  split at h
  · cases h
  · rename_i hwrap
    split at h
    · cases h
    · rename_i hin
      rw [if_neg hwrap, if_neg (by omega)]
      exact h

end Segment

/-! ## Placing them -/

namespace Layout

variable {l l' : Layout} {h : Header} {file other : Bytes} {i : Nat} {is : List Nat}

theorem place_congr (hs : (h.segment file i).Alike (h.segment other i))
    (hsize : other.size = file.size) : l.place h other i = l.place h file i := by
  simp only [place, hs.hasKnownKind, hs.isLoad, hsize]
  split
  · rfl
  · split
    · split
      · rename_i hload
        rw [hs.region hload]
      · rfl
    · rfl

theorem place_mono (hs : (h.segment file i).Alike (h.segment other i))
    (hsize : file.size ≤ other.size) (hp : l.place h file i = .ok l') :
    l.place h other i = .ok l' := by
  simp only [place, hs.hasKnownKind, hs.isLoad] at hp ⊢
  split at hp
  · cases hp
  · rename_i htable
    rw [if_neg htable]
    split at hp
    · rename_i hknown
      rw [if_pos hknown]
      split at hp
      · rename_i hload
        rw [if_pos hload, hs.region hload]
        split at hp
        · cases hp
        · rename_i r hregion
          rw [Segment.region_mono hsize hregion]
          exact hp
      · rename_i hother
        rw [if_neg hother]
        exact hp
    · cases hp

theorem placeAll_congr (hs : ∀ i ∈ is, (h.segment file i).Alike (h.segment other i))
    (hsize : other.size = file.size) : l.placeAll h other is = l.placeAll h file is := by
  induction is generalizing l with
  | nil => rfl
  | cons i rest ih =>
    obtain ⟨hi, hrest⟩ := List.forall_mem_cons.mp hs
    rw [placeAll, placeAll, place_congr hi hsize]
    split
    · rfl
    · exact ih hrest

theorem placeAll_mono (hs : ∀ i ∈ is, (h.segment file i).Alike (h.segment other i))
    (hsize : file.size ≤ other.size) (hp : l.placeAll h file is = (l', .ok ())) :
    l.placeAll h other is = (l', .ok ()) := by
  induction is generalizing l with
  | nil => exact hp
  | cons i rest ih =>
    obtain ⟨hi, hrest⟩ := List.forall_mem_cons.mp hs
    rw [placeAll] at hp ⊢
    split at hp
    · cases hp
    · rename_i placed hplace
      rw [place_mono hi hsize hplace]
      exact ih hrest hp

end Layout

theorem Header.checkTable_mono {h : Header} {size size' : Nat} (hle : size ≤ size')
    (hc : h.checkTable size = .ok ()) : h.checkTable size' = .ok () := by
  have hp := checkTable_eq_ok.mp hc
  exact checkTable_eq_ok.mpr ⟨hp.roomy, hp.aligned, hp.entriesAligned, Nat.le_trans hp.inside hle⟩

/-! ## Files that are alike -/

/-- The same magic number and class, the same file header, and program headers that mean the same. -/
structure Alike (file other : Bytes) : Prop where
  ident : ∀ n < 5, other.getD n 0 = file.getD n 0
  header : ∀ w, Width.ofClass? (file.getD 4 0) = some w →
    Header.fields other w = Header.fields file w
  segments : ∀ w, Width.ofClass? (file.getD 4 0) = some w → ∀ i < (Header.fields file w).count,
    ((Header.fields file w).segment file i).Alike ((Header.fields file w).segment other i)

variable {file other : Bytes} {w : Width}

theorem take_eq_of_ident (h : ∀ n < 5, other.getD n 0 = file.getD n 0) (hfile : 16 ≤ file.size)
    (hother : 16 ≤ other.size) : other.toList.take 4 = file.toList.take 4 := by
  apply List.ext_getElem
  · simp only [List.length_take, Array.length_toList]
    omega
  · intro n hn _
    rw [List.length_take] at hn
    have hbyte := h n (by omega)
    rw [Array.getD_eq_getD_getElem?, Array.getD_eq_getD_getElem?, Array.getElem?_eq_getElem (by omega),
      Array.getElem?_eq_getElem (by omega)] at hbyte
    simpa using hbyte

namespace Alike

theorem read (h : Alike file other) (hsize : other.size = file.size) :
    Header.read other = Header.read file := by
  rw [Header.read, Header.read, hsize, h.ident 4 (by decide)]
  split
  · rfl
  · rename_i hlong
    rw [take_eq_of_ident h.ident (by omega) (by omega)]
    split
    · rfl
    · split
      · rfl
      · rename_i w hclass
        rw [h.header w hclass]

theorem headed (h : Alike file other) (hsize : file.size ≤ other.size) (hw : Headed file w) :
    Headed other w where
  marked := by
    have hmin : 16 ≤ w.headerSize := by cases w <;> decide
    have hwhole := hw.whole
    rw [take_eq_of_ident h.ident (by omega) (by omega)]
    exact hw.marked
  classed := by
    rw [h.ident 4 (by decide)]
    exact hw.classed
  whole := Nat.le_trans hw.whole hsize

/-- Files of one length that are alike have the same outcome. -/
theorem load (h : Alike file other) (hsize : other.size = file.size) :
    Elf.load other = Elf.load file := by
  rw [Elf.load, Elf.load, h.read hsize]
  rcases Header.read_cases file with ⟨w, hw, hread⟩ | ⟨-, hread⟩ | ⟨-, -, why, hread⟩
  · rw [hread]
    dsimp only
    rw [hsize]
    have hall : ∀ l : Layout, l.placeAll (Header.fields file w) other
        (List.range (Header.fields file w).count) = l.placeAll (Header.fields file w) file
          (List.range (Header.fields file w).count) :=
      fun l => Layout.placeAll_congr
        (fun i hi => h.segments w hw.classed i (List.mem_range.mp hi)) hsize
    rw [hall]
  · rw [hread]
  · rw [hread]

/-- A longer file that is like a loaded one is loaded in the same way. -/
theorem load_of_ok (h : Alike file other) (hsize : file.size ≤ other.size) {start : Start}
    (hok : (Elf.load file).result = .ok start) : Elf.load other = Elf.load file := by
  obtain ⟨w, hw⟩ := loadable_of_load hok
  obtain ⟨l, hplaced, hload⟩ := hw.placed_all
  have hread : Header.read other = .ok (Header.fields file w) := by
    rw [Header.read_of_headed (h.headed hsize hw.headed), h.header w hw.headed.classed]
  have htable := Header.checkTable_mono hsize (Header.checkTable_eq_ok.mpr hw.placed)
  have hall := Layout.placeAll_mono
    (fun i hi => h.segments w hw.headed.classed i (List.mem_range.mp hi)) hsize hplaced
  rw [Elf.load, hread]
  simp only [htable, hall]
  exact hload.symm

end Alike

/-! ## The bytes that are read -/

/-- Where the fields of the file header are, and how long they are. -/
def Width.headerSpans : Width → List (Nat × Nat)
  | narrow => [(24, 4), (28, 4), (42, 2), (44, 2)]
  | wide => [(24, 8), (32, 8), (54, 2), (56, 2)]

/-- Where a program header gives its kind and, if its segment is loaded, the rest that matters. -/
def Width.entrySpans : Width → Bool → List (Nat × Nat)
  | _, false => [(0, 4)]
  | narrow, true => [(0, 4), (4, 4), (8, 4), (16, 4), (20, 4), (24, 4)]
  | wide, true => [(0, 4), (4, 4), (8, 8), (16, 8), (32, 8), (40, 8)]

theorem Width.kind_mem_entrySpans (w : Width) (loaded : Bool) : (0, 4) ∈ w.entrySpans loaded := by
  cases w <;> cases loaded <;> decide

/-- The place of a program header. -/
def Header.entryAt (h : Header) (i : Nat) : Nat := h.tableOffset + i * h.entrySize

/-- The bytes of a file that its loader looks at. -/
inductive Reads (file : Bytes) : Nat → Prop
  | ident {n : Nat} : n < 5 → Reads file n
  | header {w : Width} {span : Nat × Nat} {n : Nat} : Width.ofClass? (file.getD 4 0) = some w →
      span ∈ w.headerSpans → span.1 ≤ n → n < span.1 + span.2 → Reads file n
  | entry {w : Width} {i : Nat} {span : Nat × Nat} {n : Nat} :
      Width.ofClass? (file.getD 4 0) = some w → i < (Header.fields file w).count →
      span ∈ w.entrySpans ((Header.fields file w).segment file i).isLoad →
      (Header.fields file w).entryAt i + span.1 ≤ n →
      n < (Header.fields file w).entryAt i + span.1 + span.2 → Reads file n

theorem field_congr {off len : Nat}
    (h : ∀ n, off ≤ n → n < off + len → other.getD n 0 = file.getD n 0) :
    field other off len = field file off len := by
  induction len generalizing off with
  | zero => rfl
  | succ len ih =>
    rw [field, field, h off (by omega) (by omega), ih]
    intro n hlo hhi
    exact h n (by omega) (by omega)

theorem Header.width_fields (file : Bytes) (w : Width) : (Header.fields file w).width = w := by
  cases w <;> rfl

/-- Program headers with the same fields at their place mean the same. -/
theorem Header.segment_alike {h : Header} {i : Nat}
    (hfield : ∀ span ∈ h.width.entrySpans (h.segment file i).isLoad,
      field other (h.entryAt i + span.1) span.2 = field file (h.entryAt i + span.1) span.2) :
    (h.segment file i).Alike (h.segment other i) := by
  obtain ⟨w, entry, offset, size, count⟩ := h
  change ∀ span ∈ w.entrySpans _, _ at hfield
  have hkind := hfield (0, 4) (w.kind_mem_entrySpans _)
  cases w with
  | narrow =>
    refine ⟨hkind, fun hload => ?_, fun hload => ?_⟩ <;> rw [hload] at hfield
    · exact ⟨hfield (4, 4) (by decide), hfield (8, 4) (by decide), hfield (16, 4) (by decide),
        hfield (20, 4) (by decide)⟩
    · intro j _
      exact congrArg (Nat.testBit · j) (hfield (24, 4) (by decide))
  | wide =>
    refine ⟨hkind, fun hload => ?_, fun hload => ?_⟩ <;> rw [hload] at hfield
    · exact ⟨hfield (8, 8) (by decide), hfield (16, 8) (by decide), hfield (32, 8) (by decide),
        hfield (40, 8) (by decide)⟩
    · intro j _
      exact congrArg (Nat.testBit · j) (hfield (4, 4) (by decide))

/-- Files with the same bytes where one of them is read are alike. -/
theorem Alike.of_reads (h : ∀ n, Reads file n → other.getD n 0 = file.getD n 0) :
    Alike file other where
  ident n hn := h n (.ident hn)
  header := by
    intro w hw
    have hfield : ∀ span ∈ w.headerSpans, field other span.1 span.2 = field file span.1 span.2 := by
      intro span hspan
      apply field_congr
      intro n hlo hhi
      exact h n (.header hw hspan hlo hhi)
    cases w with
    | narrow =>
      rw [Header.fields, Header.fields, hfield (24, 4) (by decide), hfield (28, 4) (by decide),
        hfield (42, 2) (by decide), hfield (44, 2) (by decide)]
    | wide =>
      rw [Header.fields, Header.fields, hfield (24, 8) (by decide), hfield (32, 8) (by decide),
        hfield (54, 2) (by decide), hfield (56, 2) (by decide)]
  segments := by
    intro w hw i hi
    apply Header.segment_alike
    rw [Header.width_fields]
    intro span hspan
    apply field_congr
    intro n hlo hhi
    exact h n (.entry hw hi hspan hlo hhi)

/-- Nothing is read outside a file whose header is whole and whose table is well placed. -/
theorem Reads.lt_size {n : Nat} (h : Reads file n) (hw : Headed file w)
    (hp : (Header.fields file w).Placed file.size) : n < file.size := by
  have hwhole := hw.whole
  cases h with
  | ident hn =>
    have hmin : 52 ≤ w.headerSize := by cases w <;> decide
    omega
  | header hclass hspan hlo hhi =>
    obtain rfl := Option.some_inj.mp (hw.classed.symm.trans hclass)
    have hend : ∀ span ∈ w.headerSpans, span.1 + span.2 ≤ w.headerSize := by cases w <;> decide
    have hend := hend _ hspan
    omega
  | @entry _ i _ _ hclass hi hspan hlo hhi =>
    obtain rfl := Option.some_inj.mp (hw.classed.symm.trans hclass)
    obtain ⟨hmin, hinside⟩ := hp.entry hi
    have hend : ∀ loaded, ∀ span ∈ w.entrySpans loaded, span.1 + span.2 ≤ w.entryMin := by
      cases w <;> decide
    have hend := hend _ _ hspan
    rw [Header.width_fields] at hmin
    rw [Header.entryAt] at hlo hhi
    omega

theorem getD_append {rest : Bytes} {n : Nat} (hn : n < file.size) :
    (file ++ rest).getD n 0 = file.getD n 0 := by
  rw [Array.getD_eq_getD_getElem?, Array.getD_eq_getD_getElem?, Array.getElem?_append_left hn]

theorem alike_append {start : Start} (h : (load file).result = .ok start) (rest : Bytes) :
    Alike file (file ++ rest) := by
  obtain ⟨w, hw⟩ := loadable_of_load h
  apply Alike.of_reads
  intro n hn
  exact getD_append (hn.lt_size hw.headed hw.placed)

/-- The outcome of a load depends on the length of the file and on the fields that the loader reads,
and these on the bytes where they are. Once a file is loaded, what is appended to it changes
nothing. -/
theorem load_relevant (file : Bytes) :
    (∀ other : Bytes, other.size = file.size → Alike file other → load other = load file) ∧
    (∀ other : Bytes, other.size = file.size →
      (∀ n, Reads file n → other.getD n 0 = file.getD n 0) → load other = load file) ∧
    ∀ start, (load file).result = .ok start → ∀ rest, load (file ++ rest) = load file := by
  refine ⟨fun other hsize h => h.load hsize, fun other hsize h => ?_, fun start h rest => ?_⟩
  · exact (Alike.of_reads h).load hsize
  · apply (alike_append h rest).load_of_ok
    · rw [Array.size_append]
      exact Nat.le_add_right _ _
    · exact h

theorem onePage_class {w : Width} (h : Width.ofClass? (onePage.getD 4 0) = some w) : w = .narrow := by
  have hclass : Width.ofClass? (onePage.getD 4 0) = some .narrow := by decide +kernel
  exact Option.some_inj.mp (h.symm.trans hclass)

/-- Reserved bits among the flags of a segment mean nothing. -/
theorem alike_reserved_flags : Alike onePage (onePage.set! 76 0xfd) where
  ident := by decide +kernel
  header := by
    intro w hw
    obtain rfl := onePage_class hw
    decide +kernel
  segments := by
    intro w hw i hi
    obtain rfl := onePage_class hw
    have hcount : (Header.fields onePage .narrow).count = 1 := by decide +kernel
    obtain rfl : i = 0 := by omega
    exact ⟨by decide +kernel, fun _ => by decide +kernel, fun _ => by decide +kernel⟩

/-- The type of the file is not among the bytes that are read of it. -/
theorem not_reads_type : ¬Reads onePage 16 := by
  have hentry : (Header.fields onePage .narrow).entryAt 0 = 52 := by decide +kernel
  have hcount : (Header.fields onePage .narrow).count = 1 := by decide +kernel
  intro h
  cases h with
  | ident hn => omega
  | header hw hspan hlo hhi =>
    obtain rfl := onePage_class hw
    have hstart : ∀ span ∈ Width.narrow.headerSpans, 24 ≤ span.1 := by decide
    have hstart := hstart _ hspan
    omega
  | @entry _ i _ _ hw hi _ hlo hhi =>
    obtain rfl := onePage_class hw
    obtain rfl : i = 0 := by omega
    omega

/-- Reserved flags, another file type and three more bytes at the end change nothing. -/
theorem load_relevant_onePage :
    (Alike onePage (onePage.set! 76 0xfd) ∧ load (onePage.set! 76 0xfd) = load onePage) ∧
    ((∀ n, Reads onePage n → (onePage.set! 16 3).getD n 0 = onePage.getD n 0) ∧
      load (onePage.set! 16 3) = load onePage) ∧
    ((∃ start, (load onePage).result = .ok start) ∧
      load (onePage ++ #[1, 2, 3]) = load onePage) := by
  have hbytes : ∀ n, Reads onePage n → (onePage.set! 16 3).getD n 0 = onePage.getD n 0 := by
    intro n hn
    have hne : 16 ≠ n := by
      rintro rfl
      exact not_reads_type hn
    simp [Array.getD_eq_getD_getElem?, hne]
  obtain ⟨start, hstart, -⟩ := load_of_loadable onePage_loadable
  obtain ⟨halike, hreads, hlonger⟩ := load_relevant onePage
  exact ⟨⟨alike_reserved_flags, halike _ (by simp) alike_reserved_flags⟩,
    ⟨hbytes, hreads _ (by simp) hbytes⟩, ⟨start, hstart⟩, hlonger start hstart _⟩

end Elf

end Lifecycle
