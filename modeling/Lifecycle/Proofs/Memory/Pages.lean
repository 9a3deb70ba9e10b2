import Lifecycle.Memory.Space
import Mathlib.Algebra.Group.Nat.Defs
/-!
# Pages as numbers

The words of the address arithmetic read as natural numbers. Rounding down divides by the page
size. Rounding up divides by it after adding one less than it, and has an answer unless that sum
needs a 65th bit. The first address of a page is a multiple of the page size as long as it fits the
word, and always a multiple modulo the word.
-/

namespace Lifecycle

@[simp] theorem toNat_pageSize : pageSize.toNat = 4096 := by decide

theorem toNat_stackSize : stackSize.toNat = 8192 := by decide

theorem toNat_addrLimit : addrLimit.toNat = 2 ^ 38 := by decide

theorem toNat_trampoline : trampoline.toNat = (2 ^ 26 - 1) * 4096 := by decide

theorem toNat_trapContext : trapContext.toNat = (2 ^ 26 - 2) * 4096 := by decide

/-- Every number below the word size is the value of an address. -/
theorem exists_addr {n : Nat} (h : n < 2 ^ 64) : ∃ a : Addr, a.word.toNat = n :=
  ⟨⟨UInt64.ofNat n⟩, UInt64.toNat_ofNat_of_lt' h⟩

theorem checkedAdd_eq_some {a b c : UInt64} :
    checkedAdd a b = some c ↔ c.toNat = a.toNat + b.toNat := by
  rw [checkedAdd]
  have hc := c.toNat_lt
  split
  · rename_i hfit
    have hsum : (a + b).toNat = a.toNat + b.toNat := by
      rw [UInt64.toNat_add]
      exact Nat.mod_eq_of_lt hfit
    rw [Option.some_inj, ← UInt64.toNat_inj, hsum]
    exact eq_comm
  · rename_i hfit
    simp only [reduceCtorEq, false_iff]
    intro h
    exact hfit (h ▸ hc)

namespace Page

@[ext] theorem ext {p q : Page} (h : p.index.toNat = q.index.toNat) : p = q := by
  cases p
  cases q
  simp only [mk.injEq]
  exact UInt64.toNat_inj.mp h

theorem toNat_base (p : Page) : p.base.word.toNat = p.index.toNat * 4096 % 2 ^ 64 := by
  rw [base, UInt64.toNat_shiftLeft]
  have hbits : (UInt64.ofNat pageBits).toNat % 64 = 12 := by decide
  rw [hbits, Nat.shiftLeft_eq]

/-- The first address of a page that lies below the end of the 64-bit range. -/
theorem toNat_base_of_lt {p : Page} (h : p.index.toNat < 2 ^ 52) :
    p.base.word.toNat = p.index.toNat * 4096 := by
  rw [toNat_base, Nat.mod_eq_of_lt (by omega)]

end Page

namespace Addr

variable {a : Addr} {p : Page}

theorem toNat_floor (a : Addr) : a.floor.index.toNat = a.word.toNat / 4096 := by
  rw [floor, UInt64.toNat_div, toNat_pageSize]

theorem ceil?_eq_some :
    a.ceil? = some p ↔ a.word.toNat + 4095 < 2 ^ 64 ∧ p.index.toNat = (a.word.toNat + 4095) / 4096 := by
  have hp : ∀ w : UInt64, (⟨w / pageSize⟩ : Page) = p ↔ p.index.toNat = w.toNat / 4096 := by
    intro w
    rw [Page.ext_iff, UInt64.toNat_div, toNat_pageSize]
    exact eq_comm
  rw [ceil?]
  split
  · rename_i hzero
    rw [Option.some_inj, Page.ext_iff, hzero]
    simp only [UInt64.toNat_zero]
    omega
  · rename_i hzero
    have hpos : 0 < a.word.toNat := by
      apply Nat.pos_of_ne_zero
      intro h
      exact hzero (UInt64.toNat_inj.mp h)
    have hpred : (a.word - 1).toNat = a.word.toNat - 1 :=
      UInt64.toNat_sub_of_le _ _ (by rw [UInt64.le_iff_toNat_le]; exact hpos)
    rw [Option.map_eq_some_iff]
    simp only [checkedAdd_eq_some, hp, hpred, toNat_pageSize]
    constructor
    · rintro ⟨w, hw, hi⟩
      have hlt := w.toNat_lt
      exact ⟨by omega, by rw [hi, hw]; congr 1; omega⟩
    · rintro ⟨hlt, hi⟩
      have hsum := UInt64.toNat_ofNat_of_lt' hlt
      exact ⟨UInt64.ofNat (a.word.toNat + 4095), by omega, by rw [hsum, hi]⟩

theorem isValid_iff : a.isValid = true ↔ a.word.toNat < addrLimit.toNat := by
  rw [isValid, decide_eq_true_iff, UInt64.lt_iff_toNat_lt]

end Addr

end Lifecycle
