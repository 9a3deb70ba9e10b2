import Lifecycle.Proofs.Kernel.Creation
/-!
# Reading images with every access checked

A reader that trusts nothing: each part of a file is cut out only if it lies inside the file, starts
where its words are aligned and holds the whole record that is read from it, and each sum and product
on the way to it must fit a word. The loader reads the same from every file, so none of these checks
can fail in it except the one for the file header, whose length nobody looks at: an image that is cut
off there is the only one that gets no answer.
-/

namespace Lifecycle

/-- A call succeeded or was refused; nothing stopped it half-way. -/
def Answered {α : Type} (r : Except Fault α) : Prop :=
  (∃ a, r = .ok a) ∨ ∃ why, r = .error (.refused why)

theorem answered_ok {α : Type} (a : α) : Answered (.ok a) := .inl ⟨a, rfl⟩

theorem answered_refused {α : Type} (why : Refusal) :
    Answered (.error (.refused why) : Except Fault α) := .inr ⟨why, rfl⟩

theorem not_answered_outOfBounds {α : Type} : ¬Answered (.error .outOfBounds : Except Fault α) := by
  rintro (⟨a, h⟩ | ⟨why, h⟩) <;> cases h

namespace Elf

theorem getD_extract {file : Bytes} {start stop off : Nat} (hoff : start + off < stop) :
    (file.extract start stop).getD off 0 = file.getD (start + off) 0 := by
  rw [Array.getD_eq_getD_getElem?, Array.getD_eq_getD_getElem?, Array.getElem?_extract]
  split
  · rfl
  · rename_i hout
    rw [Array.getElem?_eq_none (by omega)]

/-- A field is read alike from a part that holds all of it. -/
theorem field_extract {file : Bytes} {start stop off len : Nat} (h : start + off + len ≤ stop) :
    field (file.extract start stop) off len = field file (start + off) len := by
  induction len generalizing off with
  | zero => rfl
  | succ len ih =>
    rw [field, field, getD_extract (by omega), ih (by omega), Nat.add_assoc]

namespace Checked

/-! ## The reader -/

/-- A number that must fit a word. -/
def word (n : Nat) : Except Fault Nat := if n < UInt64.size then .ok n else .error .overflow

/-- The part of a file from `start` up to `stop`, for a record of a given size and alignment. -/
def part (file : Bytes) (start stop size align : Nat) : Except Fault Bytes :=
  if start ≤ stop ∧ stop ≤ file.size ∧ size ≤ stop - start ∧ align ∣ start then
    .ok (file.extract start stop)
  else .error .outOfBounds

/-- What the loader needs of the file header, read from the part that follows the first 16 bytes. -/
def headerOf (rest : Bytes) : Width → Header
  | .narrow => ⟨.narrow, field rest 8 4, field rest 12 4, field rest 26 2, field rest 28 2⟩
  | .wide => ⟨.wide, field rest 8 8, field rest 16 8, field rest 38 2, field rest 40 2⟩

/-- What the loader needs of a program header, read from its entry in the table. -/
def segmentOf (entry : Bytes) : Width → Segment
  | .narrow => ⟨field entry 0 4, field entry 24 4, field entry 4 4, field entry 8 4,
      field entry 16 4, field entry 20 4⟩
  | .wide => ⟨field entry 0 4, field entry 4 4, field entry 8 8, field entry 16 8,
      field entry 32 8, field entry 40 8⟩

def header (file : Bytes) : Except Fault Header :=
  if file.size < 16 then .error (defect .shortFile)
  else do
    let ident ← part file 0 16 16 1
    if ident.toList.take 4 ≠ magic then .error (defect .badMagic)
    else
      match Width.ofClass? (ident.getD 4 0) with
      | none => .error (defect .badClass)
      | some w =>
        let rest ← part file 16 w.headerSize (w.headerSize - 16) w.wordSize
        return headerOf rest w

/-- Checks the program header table; an end that does not fit a word is outside of any file. -/
def table (h : Header) (size : Nat) : Except Fault Unit :=
  if 0 < h.count ∧ h.entrySize < h.width.entryMin then .error (defect .smallEntry)
  else if h.tableOffset % h.width.wordSize ≠ 0 ∨ h.entrySize % h.width.wordSize ≠ 0 then
    .error (defect .misaligned)
  else
    match (do word ((← word (h.count * h.entrySize)) + h.tableOffset) : Except Fault Nat) with
    | .ok stop => if stop ≤ size then .ok () else .error (defect .tableOutside)
    | .error _ => .error (defect .tableOutside)

/-- The program header at an index, cut out of the table. -/
def segment (h : Header) (file : Bytes) (i : Nat) : Except Fault Segment :=
  if i < h.count ∧ 0 < h.tableOffset ∧ 0 < h.entrySize then do
    let start ← word (h.tableOffset + (← word (i * h.entrySize)))
    let stop ← word (start + h.entrySize)
    let entry ← part file start stop h.width.entryMin h.width.wordSize
    return segmentOf entry h.width
  else .error (defect .noTable)

/-- Places a program header if it asks for memory. -/
def settle (l : Layout) (size : Nat) (s : Segment) : Except Fault Layout :=
  if s.hasKnownKind then
    if s.isLoad then do l.add (← s.region size)
    else return l
  else .error (defect .badKind)

def placeAll (l : Layout) (h : Header) (file : Bytes) : List Nat → Layout × Except Fault Unit
  | [] => (l, .ok ())
  | i :: rest =>
    match (do settle l file.size (← segment h file i) : Except Fault Layout) with
    | .error fault => (l, .error fault)
    | .ok l' => placeAll l' h file rest

def load (file : Bytes) : Build Start :=
  match header file with
  | .error fault => ⟨.empty, .error fault⟩
  | .ok h =>
    match table h file.size with
    | .error fault => ⟨.empty, .error fault⟩
    | .ok _ =>
      match placeAll .start h file (List.range h.count) with
      | (l, .error fault) => ⟨l.space, .error fault⟩
      | (l, .ok _) => finish l h.entry

/-! ## No check fails that the loader does not make -/

variable {file : Bytes} {h : Header} {i : Nat}

theorem headerOf_extract (file : Bytes) (w : Width) :
    headerOf (file.extract 16 w.headerSize) w = Header.fields file w := by
  cases w with
  | narrow => simp (disch := decide) only [headerOf, Header.fields, Width.headerSize, field_extract]
  | wide => simp (disch := decide) only [headerOf, Header.fields, Width.headerSize, field_extract]

/-- The rest of the file header is cut out if it is there; otherwise the read is out of bounds. -/
theorem part_rest (file : Bytes) (w : Width) :
    part file 16 w.headerSize (w.headerSize - 16) w.wordSize =
      if file.size < w.headerSize then .error .outOfBounds
      else .ok (file.extract 16 w.headerSize) := by
  have hfixed : 16 ≤ w.headerSize ∧ w.wordSize ∣ 16 := by cases w <;> decide
  rw [part]
  split
  · rename_i hin
    rw [if_neg (Nat.not_lt.mpr hin.2.1)]
  · rename_i hout
    rw [if_pos]
    by_contra hwhole
    exact hout ⟨hfixed.1, Nat.not_lt.mp hwhole, le_rfl, hfixed.2⟩

theorem header_eq (file : Bytes) : header file = Header.read file := by
  rw [header, Header.read]
  split
  · rfl
  · rename_i hlong
    have hident : part file 0 16 16 1 = .ok (file.extract 0 16) :=
      if_pos ⟨by omega, Nat.not_lt.mp hlong, by omega, one_dvd 0⟩
    have hmagic : (file.extract 0 16).toList.take 4 = file.toList.take 4 := by
      simp [List.take_take]
    have hclass : (file.extract 0 16).getD 4 0 = file.getD 4 0 := getD_extract (by omega)
    rw [hident]
    change (if (file.extract 0 16).toList.take 4 ≠ magic then _ else _) = _
    rw [hmagic, hclass]
    split
    · rfl
    · cases Width.ofClass? (file.getD 4 0) with
      | none => rfl
      | some w =>
        dsimp only
        rw [part_rest]
        split
        · rfl
        · exact congrArg Except.ok (headerOf_extract file w)

theorem table_eq {size : Nat} (hsize : size < UInt64.size) (h : Header) :
    table h size = h.checkTable size := by
  rw [table, Header.checkTable]
  split
  · rfl
  · split
    · rfl
    · by_cases hcount : h.count * h.entrySize < UInt64.size
      · by_cases hstop : h.count * h.entrySize + h.tableOffset < UInt64.size
        · simp only [word, hcount, hstop, if_true, Except.bind, bind]
          split <;> split <;> first | rfl | omega
        · simp only [word, hcount, hstop, if_true, if_false, Except.bind, bind]
          rw [if_pos (by omega)]
      · simp only [word, hcount, if_false, Except.bind, bind]
        rw [if_pos (by omega)]

theorem segmentOf_extract {start stop : Nat} (hpos : h.tableOffset + i * h.entrySize = start)
    (hstop : start + h.width.entryMin ≤ stop) :
    segmentOf (file.extract start stop) h.width = h.segment file i := by
  subst hpos
  rw [Header.segment]
  cases hw : h.width with
  | narrow =>
    rw [hw, Width.entryMin] at hstop
    simp (disch := omega) only [segmentOf, field_extract]
    rfl
  | wide =>
    rw [hw, Width.entryMin] at hstop
    simp (disch := omega) only [segmentOf, field_extract]
    rfl

/-- An entry of a well-placed table is a whole record at an aligned place inside the file. -/
theorem segment_eq (hp : h.Placed file.size) (hsize : file.size < UInt64.size)
    (htable : 0 < h.tableOffset) (hi : i < h.count) : segment h file i = .ok (h.segment file i) := by
  obtain ⟨hmin, hinside⟩ := hp.entry hi
  have hentry : 0 < h.entrySize := by
    have hpos : 0 < h.width.entryMin := by cases h.width <;> decide
    omega
  have hstep : word (i * h.entrySize) = .ok (i * h.entrySize) := if_pos (by omega)
  have hstart : word (h.tableOffset + i * h.entrySize) = .ok (h.tableOffset + i * h.entrySize) :=
    if_pos (by omega)
  have hstop : word (h.tableOffset + i * h.entrySize + h.entrySize) =
      .ok (h.tableOffset + i * h.entrySize + h.entrySize) := if_pos (by omega)
  have haligned : h.width.wordSize ∣ h.tableOffset + i * h.entrySize :=
    Nat.dvd_add hp.aligned (Nat.dvd_mul_left_of_dvd hp.entriesAligned i)
  have hpart : part file (h.tableOffset + i * h.entrySize)
      (h.tableOffset + i * h.entrySize + h.entrySize) h.width.entryMin h.width.wordSize =
      .ok (file.extract (h.tableOffset + i * h.entrySize)
        (h.tableOffset + i * h.entrySize + h.entrySize)) :=
    if_pos ⟨Nat.le_add_right _ _, by omega, by omega, haligned⟩
  rw [segment, if_pos ⟨hi, htable, hentry⟩]
  simp only [hstep, hstart, hstop, hpart, bind, Except.bind, pure, Except.pure,
    segmentOf_extract rfl (Nat.add_le_add_left hmin _)]

theorem place_eq (hp : h.Placed file.size) (hsize : file.size < UInt64.size) (hi : i < h.count)
    (l : Layout) : (segment h file i).bind (settle l file.size) = l.place h file i := by
  by_cases htable : h.tableOffset = 0
  · rw [segment, if_neg (by simp [htable]), Layout.place, if_pos htable]
    rfl
  · rw [segment_eq hp hsize (Nat.pos_of_ne_zero htable) hi, Layout.place, if_neg htable]
    show settle l file.size (h.segment file i) = _
    rw [settle]
    dsimp only
    split
    · split
      · cases (h.segment file i).region file.size <;> rfl
      · rfl
    · rfl

theorem placeAll_eq (hp : h.Placed file.size) (hsize : file.size < UInt64.size) {is : List Nat}
    (his : ∀ i ∈ is, i < h.count) (l : Layout) : placeAll l h file is = l.placeAll h file is := by
  induction is generalizing l with
  | nil => rfl
  | cons i rest ih =>
    obtain ⟨hi, hrest⟩ := List.forall_mem_cons.mp his
    rw [placeAll, Layout.placeAll, ← place_eq hp hsize hi]
    change (match (segment h file i).bind (settle l file.size) with
      | .error fault => _
      | .ok l' => _) = _
    cases (segment h file i).bind (settle l file.size) with
    | error fault => rfl
    | ok l' => exact ih hrest l'

/-- The loader reads as if it checked every access. -/
theorem load_eq (hsize : file.size < UInt64.size) : load file = Elf.load file := by
  rw [load, Elf.load, header_eq]
  cases Header.read file with
  | error fault => rfl
  | ok h =>
    dsimp only
    rw [table_eq hsize]
    cases htable : h.checkTable file.size with
    | error fault => rfl
    | ok _ =>
      have hplaced := Header.checkTable_eq_ok.mp htable
      have hall := placeAll_eq hplaced hsize (fun i hi => List.mem_range.mp hi) .start
      dsimp only
      generalize placeAll .start h file (List.range h.count) = placed at hall ⊢
      subst hall
      rfl

end Checked

/-! ## Images that get no answer -/

/-- What comes of an image: a read out of bounds if its file header is cut off, and otherwise an
answer. -/
structure Received {α : Type} (file : Bytes) (r : Except Fault α) : Prop where
  cut : CutOff file → r = .error .outOfBounds
  whole : ¬CutOff file → Answered r

variable {file : Bytes}

theorem load_received (file : Bytes) : Received file (load file).result := by
  rcases Header.read_cases file with ⟨w, hw, -⟩ | ⟨hcut, hread⟩ | ⟨-, hnot, why, hread⟩
  · refine ⟨fun hcut => absurd hcut hw.not_cutOff, fun _ => ?_⟩
    by_cases hloadable : Loadable file w
    · obtain ⟨start, hstart, -⟩ := load_of_loadable hloadable
      exact .inl ⟨start, hstart⟩
    · exact .inr (load_of_not_loadable hloadable hw)
  · exact ⟨fun _ => by rw [load, hread], fun hnot => absurd hcut hnot⟩
  · exact ⟨fun hcut => absurd hcut hnot, fun _ => .inr ⟨why, by rw [load, hread]⟩⟩

theorem Received.not_answered {α : Type} {r : Except Fault α} (h : Received file r)
    (hcut : CutOff file) : ¬Answered r := by
  rw [h.cut hcut]
  exact not_answered_outOfBounds

end Elf

namespace Kernel

open Elf

/-- A creation is always answered. -/
theorem Creates.answered {k : Kernel} {parent : Pid} {grants : Slot → Option AddressSpace}
    {o : Outcome Pid} (h : k.Creates parent grants o) : Answered o.result := by
  rcases h.result_cases with ⟨why, -, hresult⟩ | ⟨space, -, -, hresult⟩ |
    ⟨space, -, -, hresult⟩ <;> rw [hresult]
  · exact answered_refused why
  · exact answered_refused .tableFull
  · exact answered_ok _

theorem spawn_received (k : Kernel) (parent : Pid) (file : Bytes) :
    Received file (k.spawn parent file).result := by
  have hload := load_received file
  rw [spawn]
  constructor
  · intro hcut
    rw [adoptBuild, hload.cut hcut]
  · intro hwhole
    rcases hload.whole hwhole with ⟨start, hstart⟩ | ⟨why, hwhy⟩
    · rw [(adoptBuild_eq_install hstart).1]
      exact (k.install_creates parent (load file).space).answered
    · rw [adoptBuild, hwhy]
      exact answered_refused why

theorem exec_received (k : Kernel) (p : Pid) (file : Bytes) :
    Received file (k.exec p file).result := by
  have hload := load_received file
  unfold exec
  constructor
  · intro hcut
    simp only [hload.cut hcut]
  · intro hwhole
    rcases hload.whole hwhole with ⟨start, hstart⟩ | ⟨why, hwhy⟩
    · simp only [hstart]
      cases k.table.runningSlot p with
      | error why => exact answered_refused why
      | ok i => exact answered_ok start
    · simp only [hwhy]
      exact answered_refused why

end Kernel

namespace Elf

/-- Of a file that fits the memory, no read leaves the file and no number leaves its word once its
file header is whole: it is loaded or refused, and so are the calls that are given it, in any kernel.
A file that ends inside its file header stops all of them. -/
theorem load_guarded (file : Bytes) (hsize : file.size < UInt64.size) :
    Checked.load file = load file ∧ Received file (load file).result ∧
      ∀ (k : Kernel) (p : Pid),
        Received file (k.spawn p file).result ∧ Received file (k.exec p file).result :=
  ⟨Checked.load_eq hsize, load_received file, fun k p => ⟨k.spawn_received p file,
    k.exec_received p file⟩⟩

/-- The identification of a 64-bit image, and nothing after it. -/
def stub : Bytes := #[0x7f, 0x45, 0x4c, 0x46, 2, 1, 1, 0, 0, 0, 0, 0, 0, 0, 0, 0]

theorem stub_cutOff : CutOff stub := ⟨by decide, by decide, .wide, by decide, by decide⟩

/-- A whole image is answered, and one without the rest of its file header is not. -/
theorem load_guarded_stub :
    (onePage.size < UInt64.size ∧ Checked.load onePage = load onePage ∧
      Answered (load onePage).result) ∧
    (stub.size < UInt64.size ∧ Checked.load stub = load stub ∧
      (load stub).result = .error .outOfBounds) := by
  obtain ⟨hwhole, hreceived, -⟩ := load_guarded onePage (by decide +kernel)
  obtain ⟨hcut, hstopped, -⟩ := load_guarded stub (by decide)
  exact ⟨⟨by decide +kernel, hwhole, hreceived.whole onePage_loadable.headed.not_cutOff⟩,
    by decide, hcut, hstopped.cut stub_cutOff⟩

/-- An image that ends after 16 bytes is neither loaded nor refused, and neither is a call that is
given it. -/
theorem stub_not_answered :
    stub.size = 16 ∧ ¬Answered (load stub).result ∧ ∀ (k : Kernel) (p : Pid),
      ¬Answered (k.spawn p stub).result ∧ ¬Answered (k.exec p stub).result :=
  ⟨rfl, (load_received stub).not_answered stub_cutOff, fun k p =>
    ⟨(k.spawn_received p stub).not_answered stub_cutOff,
      (k.exec_received p stub).not_answered stub_cutOff⟩⟩

end Elf

end Lifecycle
