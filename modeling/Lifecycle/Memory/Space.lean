import Lifecycle.Memory.Access
import Lifecycle.Memory.Range
/-!
# Address spaces

An address space is a list of areas in the order they were mapped. Mapping refuses an area that
reaches past the address limit or overlaps an earlier one, and changes nothing then. A list of
regions is mapped up to the first that fails.
-/

namespace Lifecycle

/-- A run of pages with one permission. -/
structure Area where
  range : PageRange
  access : Access
deriving DecidableEq

/-- A request to map the bytes from `start` up to `stop`. -/
structure Region where
  start : Addr
  stop : Addr
  access : Access
deriving DecidableEq

namespace Area

/-- The least area that covers the bytes of a region. -/
def covering (r : Region) : Except Fault Area :=
  match r.stop.ceil? with
  | none => .error .overflow
  | some hi => (PageRange.between r.start.floor hi).map fun range => ⟨range, r.access⟩

def pageCount (a : Area) : Nat := a.range.pageCount

def maps (a : Area) (p : Page) : Bool := a.range.contains p

end Area

/-- What a process can address. -/
structure AddressSpace where
  areas : List Area
deriving DecidableEq

namespace AddressSpace

def empty : AddressSpace := ⟨[]⟩

def pageCount (s : AddressSpace) : Nat := (s.areas.map Area.pageCount).foldl (· + ·) 0

def maps (s : AddressSpace) (p : Page) : Bool := s.areas.any (·.maps p)

/-- Maps an area. The limit is checked on the address of the end page; the page reported for an
overlap is the larger of the two starts. -/
def push (s : AddressSpace) (a : Area) : Except Fault AddressSpace :=
  let stop := a.range.hi.base
  if addrLimit < stop.word then .error (.refused (.outOfRange stop))
  else
    match s.areas.find? (·.range.overlaps a.range) with
    | some other =>
      let first := if other.range.lo.index ≤ a.range.lo.index then a.range.lo else other.range.lo
      .error (.refused (.alreadyMapped first))
    | none => .ok ⟨s.areas ++ [a]⟩

/-- Maps the pages that hold the bytes of a region. -/
def insert (s : AddressSpace) (r : Region) : Except Fault AddressSpace :=
  if r.stop.word < r.start.word ∨ r.start.isValid = false then
    .error (.refused (.outOfRange r.start))
  else if addrLimit < r.stop.word then .error (.refused (.outOfRange r.stop))
  else
    match Area.covering r with
    | .error fault => .error fault
    | .ok a => s.push a

/-- An address space with the same areas. -/
def copy (s : AddressSpace) : AddressSpace := ⟨s.areas.map fun a => ⟨a.range, a.access⟩⟩

end AddressSpace

/-- An address space under construction: what has been mapped, and how the construction went. -/
structure Build (α : Type) where
  space : AddressSpace
  result : Except Fault α

namespace AddressSpace

/-- Maps regions in order, up to the first that fails. -/
def insertAll (s : AddressSpace) : List Region → Build Unit
  | [] => ⟨s, .ok ()⟩
  | r :: rest =>
    match s.insert r with
    | .error fault => ⟨s, .error fault⟩
    | .ok s' => s'.insertAll rest

def ofRegions (regions : List Region) : Build Unit := empty.insertAll regions

end AddressSpace

end Lifecycle
