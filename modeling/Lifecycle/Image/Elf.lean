import Lifecycle.Memory.Space
/-!
# Executable images

Reads an ELF image and lays out the address space of its process: the loadable segments in the order
of their headers, a guard page and two pages of stack above the highest of them, and the trap
context below the trampoline. All fields are read least significant byte first. The program header
table is checked as a whole before any entry is read; the file header itself is only checked up to
its class, so a file that ends inside the rest of it is a read out of bounds.
-/

namespace Lifecycle

/-- The content of a file. -/
abbrev Bytes := Array UInt8

namespace Elf

/-- The number written in `len` bytes from offset `off` on, least significant byte first. -/
def field (file : Bytes) (off : Nat) : Nat → Nat
  | 0 => 0
  | len + 1 => (file.getD off 0).toNat + 256 * field file (off + 1) len

/-- The word size that an image is written for. -/
inductive Width where
  | narrow
  | wide
deriving DecidableEq

namespace Width

def ofClass? : UInt8 → Option Width
  | 1 => some narrow
  | 2 => some wide
  | _ => none

/-- Bytes of an address or an offset. -/
def wordSize : Width → Nat
  | narrow => 4
  | wide => 8

/-- Bytes of the file header. -/
def headerSize : Width → Nat
  | narrow => 52
  | wide => 64

/-- Bytes of a program header. -/
def entryMin : Width → Nat
  | narrow => 32
  | wide => 56

end Width

/-- What the loader needs of the file header. -/
structure Header where
  width : Width
  entry : Nat
  tableOffset : Nat
  entrySize : Nat
  count : Nat
deriving DecidableEq

/-- What the loader needs of a program header. -/
structure Segment where
  kind : Nat
  flags : Nat
  offset : Nat
  addr : Nat
  fileSize : Nat
  memSize : Nat
deriving DecidableEq

def defect (d : ImageDefect) : Fault := .refused (.badImage d)

def magic : List UInt8 := [0x7f, 0x45, 0x4c, 0x46]

namespace Header

/-- The fields of a file header of a given width. -/
def fields (file : Bytes) : Width → Header
  | .narrow => ⟨.narrow, field file 24 4, field file 28 4, field file 42 2, field file 44 2⟩
  | .wide => ⟨.wide, field file 24 8, field file 32 8, field file 54 2, field file 56 2⟩

def read (file : Bytes) : Except Fault Header :=
  if file.size < 16 then .error (defect .shortFile)
  else if (file.toList.take 4) ≠ magic then .error (defect .badMagic)
  else
    match Width.ofClass? (file.getD 4 0) with
    | none => .error (defect .badClass)
    | some w => if file.size < w.headerSize then .error .outOfBounds else .ok (fields file w)

/-- Checks that the program header table is well placed. -/
def checkTable (h : Header) (size : Nat) : Except Fault Unit :=
  if 0 < h.count ∧ h.entrySize < h.width.entryMin then .error (defect .smallEntry)
  else if h.tableOffset % h.width.wordSize ≠ 0 ∨ h.entrySize % h.width.wordSize ≠ 0 then
    .error (defect .misaligned)
  else if size < h.tableOffset + h.count * h.entrySize then .error (defect .tableOutside)
  else .ok ()

/-- The program header at an index. -/
def segment (h : Header) (file : Bytes) (i : Nat) : Segment :=
  let pos := h.tableOffset + i * h.entrySize
  match h.width with
  | .narrow => ⟨field file pos 4, field file (pos + 24) 4, field file (pos + 4) 4,
      field file (pos + 8) 4, field file (pos + 16) 4, field file (pos + 20) 4⟩
  | .wide => ⟨field file pos 4, field file (pos + 4) 4, field file (pos + 8) 8,
      field file (pos + 16) 8, field file (pos + 32) 8, field file (pos + 40) 8⟩

end Header

namespace Segment

/-- The kinds of program headers that have a meaning, general or reserved. -/
def hasKnownKind (s : Segment) : Bool :=
  s.kind ≤ 7 || (0x60000000 ≤ s.kind && s.kind ≤ 0x7fffffff)

def isLoad (s : Segment) : Bool := s.kind = 1

/-- Every segment is for user code; its flags say what else is allowed. -/
def access (s : Segment) : Access :=
  ⟨s.flags.testBit 2, s.flags.testBit 1, s.flags.testBit 0, true⟩

/-- The region that a loadable segment asks for. -/
def region (s : Segment) (size : Nat) : Except Fault Region :=
  let start : Addr := ⟨UInt64.ofNat s.addr⟩
  if UInt64.size ≤ s.offset + s.fileSize then .error (defect .segmentOverflow)
  else if size < s.offset + s.fileSize then .error (defect .segmentOutside)
  else if UInt64.size ≤ s.addr + s.memSize then .error (.refused (.outOfRange start))
  else .ok ⟨start, ⟨UInt64.ofNat (s.addr + s.memSize)⟩, s.access⟩

end Segment

/-- The segments placed so far, and the first page above them all. -/
structure Layout where
  space : AddressSpace
  top : Page
deriving DecidableEq

namespace Layout

def start : Layout := ⟨.empty, ⟨0⟩⟩

/-- Maps one region below the stack. -/
def add (l : Layout) (r : Region) : Except Fault Layout :=
  match l.space.insert r with
  | .error fault => .error fault
  | .ok space =>
    match r.stop.ceil? with
    | none => .error .overflow
    | some stop => .ok ⟨space, if l.top.index < stop.index then stop else l.top⟩

/-- Places the program header at an index, if it asks for memory. -/
def place (l : Layout) (h : Header) (file : Bytes) (i : Nat) : Except Fault Layout :=
  if h.tableOffset = 0 then .error (defect .noTable)
  else
    let s := h.segment file i
    if s.hasKnownKind then
      if s.isLoad then
        match s.region file.size with
        | .error fault => .error fault
        | .ok r => l.add r
      else .ok l
    else .error (defect .badKind)

/-- Places program headers in order, up to the first that fails. -/
def placeAll (l : Layout) (h : Header) (file : Bytes) : List Nat → Layout × Except Fault Unit
  | [] => (l, .ok ())
  | i :: rest =>
    match l.place h file i with
    | .error fault => (l, .error fault)
    | .ok l' => l'.placeAll h file rest

/-- The stack above a guard page: where it starts and where it ends. -/
def stack? (l : Layout) : Option (UInt64 × UInt64) := do
  let bottom ← checkedAdd l.top.base.word pageSize
  let top ← checkedAdd bottom stackSize
  return (bottom, top)

end Layout

/-- Where a loaded program starts: its stack pointer and its first instruction. -/
structure Start where
  stackTop : Addr
  entry : Addr
deriving DecidableEq

/-- Adds the stack and the trap context to the segments. -/
def finish (l : Layout) (entry : Nat) : Build Start :=
  match l.stack? with
  | none => ⟨l.space, .error .overflow⟩
  | some (bottom, top) =>
    let built := l.space.insertAll [
      ⟨⟨bottom⟩, ⟨top⟩, ⟨true, true, false, true⟩⟩,
      ⟨⟨trapContext⟩, ⟨trampoline⟩, ⟨true, true, false, false⟩⟩]
    ⟨built.space, built.result.map fun _ => ⟨⟨top⟩, ⟨UInt64.ofNat entry⟩⟩⟩

/-- Builds the address space of a program image. -/
def load (file : Bytes) : Build Start :=
  match Header.read file with
  | .error fault => ⟨.empty, .error fault⟩
  | .ok h =>
    match h.checkTable file.size with
    | .error fault => ⟨.empty, .error fault⟩
    | .ok _ =>
      match Layout.start.placeAll h file (List.range h.count) with
      | (l, .error fault) => ⟨l.space, .error fault⟩
      | (l, .ok _) => finish l h.entry

end Elf

end Lifecycle
