/-!
# Access permissions

Which accesses a mapping allows. Each permission has the bit it has in a page-table entry; the
other bits of an entry carry nothing here.
-/

namespace Lifecycle

/-- Permissions of a mapping. -/
structure Access where
  read : Bool
  write : Bool
  execute : Bool
  user : Bool
deriving DecidableEq, Inhabited

namespace Access

/-- No permission. -/
def none : Access := ⟨false, false, false, false⟩

/-- Every permission. -/
def all : Access := ⟨true, true, true, true⟩

/-- The permissions among some bits; the other bits are dropped. -/
def ofBits (n : Nat) : Access := ⟨n.testBit 1, n.testBit 2, n.testBit 3, n.testBit 4⟩

def toBits (a : Access) : Nat :=
  2 * a.read.toNat + 4 * a.write.toNat + 8 * a.execute.toNat + 16 * a.user.toNat

/-- The permissions given by some bits, if every bit stands for one. -/
def ofBits? (n : Nat) : Option Access :=
  if (ofBits n).toBits = n then some (ofBits n) else Option.none

/-- Combines two sets of permissions bit by bit. -/
def zipWith (f : Bool → Bool → Bool) (a b : Access) : Access :=
  ⟨f a.read b.read, f a.write b.write, f a.execute b.execute, f a.user b.user⟩

def union : Access → Access → Access := zipWith (· || ·)
def inter : Access → Access → Access := zipWith (· && ·)
def diff : Access → Access → Access := zipWith fun x y => x && !y
def symmDiff : Access → Access → Access := zipWith (· ^^ ·)
def compl (a : Access) : Access := all.diff a

def contains (a b : Access) : Bool := a.inter b = b
def intersects (a b : Access) : Bool := a.inter b ≠ none

/-- The letters of the permissions held, in bit order. -/
def text (a : Access) : String :=
  let letters := [(a.read, "R"), (a.write, "W"), (a.execute, "X"), (a.user, "U")].filterMap
    fun (held, letter) => if held then some letter else Option.none
  if letters.isEmpty then "(empty)" else " | ".intercalate letters

end Access

end Lifecycle
