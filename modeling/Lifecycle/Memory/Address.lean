/-!
# Virtual addresses and pages

Addresses and page numbers are 64-bit words. The address space is one bit smaller than three levels
of nine index bits over 4 KiB pages would allow, so that no legal address needs sign extension. Its
two highest pages are the trampoline and, below it, the trap context.
-/

namespace Lifecycle

/-- A virtual address. -/
structure Addr where
  word : UInt64
deriving DecidableEq, Inhabited

/-- A virtual page number. -/
structure Page where
  index : UInt64
deriving DecidableEq, Inhabited

def pageBits : Nat := 12
def indexBits : Nat := 9
def tableLevels : Nat := 3

def pageSize : UInt64 := 0x1000

/-- One beyond the highest usable virtual address. -/
def addrLimit : UInt64 := UInt64.ofNat (1 <<< (indexBits * tableLevels + pageBits - 1))

def trampoline : UInt64 := addrLimit - pageSize
def trapContext : UInt64 := trampoline - pageSize
def stackSize : UInt64 := pageSize * 2

/-- The sum of two words, unless it needs a 65th bit. -/
def checkedAdd (a b : UInt64) : Option UInt64 :=
  if a.toNat + b.toNat < UInt64.size then some (a + b) else none

namespace Addr

/-- The page that holds an address. -/
def floor (a : Addr) : Page := ⟨a.word / pageSize⟩

/-- The first page that starts at or after an address. Rounding up adds to the word, so the
topmost page of the 64-bit range has no ceiling except at its start. -/
def ceil? (a : Addr) : Option Page :=
  if a.word = 0 then some ⟨0⟩
  else (checkedAdd (a.word - 1) pageSize).map fun w => ⟨w / pageSize⟩

def isValid (a : Addr) : Bool := a.word < addrLimit

end Addr

/-- The first address of a page; a page number above 52 bits loses its high bits. -/
def Page.base (p : Page) : Addr := ⟨p.index <<< UInt64.ofNat pageBits⟩

/-- Lower-case hexadecimal digits after `0x`, without leading zeros. -/
def hex (n : Nat) : String := "0x" ++ String.ofList (Nat.toDigits 16 n)

def Addr.text (a : Addr) : String := "VA:" ++ hex a.word.toNat

def Page.text (p : Page) : String := "VPN:" ++ hex p.index.toNat

end Lifecycle
