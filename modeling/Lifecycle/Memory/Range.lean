import Lifecycle.Fault
/-!
# Ranges of pages

Half-open ranges. Two ranges overlap when each starts before the other ends; an empty range
strictly inside another overlaps it as well.
-/

namespace Lifecycle

/-- The pages from `lo` up to, but not including, `hi`. -/
structure PageRange where
  lo : Page
  hi : Page
  lo_le_hi : lo.index ≤ hi.index
deriving DecidableEq

namespace PageRange

/-- The range between two pages, which must be in order. -/
def between (lo hi : Page) : Except Fault PageRange :=
  if h : lo.index ≤ hi.index then .ok ⟨lo, hi, h⟩ else .error (.backwards lo hi)

def contains (r : PageRange) (p : Page) : Bool := r.lo.index ≤ p.index && p.index < r.hi.index

def overlaps (r s : PageRange) : Bool := r.lo.index < s.hi.index && s.lo.index < r.hi.index

def pageCount (r : PageRange) : Nat := r.hi.index.toNat - r.lo.index.toNat

end PageRange

end Lifecycle
