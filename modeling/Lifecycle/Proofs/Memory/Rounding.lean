import Lifecycle.Proofs.Memory.Limits
/-!
# Rounding as adjoints of the first address

On the pages that have an address, taking the first address is undone by rounding down and by
rounding up, and it is adjoint to both: a page is at most an address rounded down exactly if its
first address is at most that address, and at least an address rounded up exactly if its first
address is at least that. Only the addresses above the start of the topmost page have no page to be
rounded up to. The order of rounded ends follows from the two adjunctions: a region in order lies
between the first addresses of its rounded ends, and these are ordered as their pages are.
-/

namespace Lifecycle

namespace Page

variable {p q c : Page} {a : Addr}

theorem le_floor_iff (hp : p.index.toNat < wordPages) :
    p.index ≤ a.floor.index ↔ p.base.word ≤ a.word := by
  rw [wordPages_eq] at hp
  rw [UInt64.le_iff_toNat_le, UInt64.le_iff_toNat_le, Addr.toNat_floor, toNat_base_of_lt hp]
  exact Nat.le_div_iff_mul_le (by decide)

theorem ceil_le_iff (hp : p.index.toNat < wordPages) (hc : a.ceil? = some c) :
    c.index ≤ p.index ↔ a.word ≤ p.base.word := by
  rw [wordPages_eq] at hp
  obtain ⟨-, hceil⟩ := Addr.ceil?_eq_some.mp hc
  rw [UInt64.le_iff_toNat_le, UInt64.le_iff_toNat_le, hceil, toNat_base_of_lt hp]
  omega

theorem floor_base (hp : p.index.toNat < wordPages) : p.base.floor = p := by
  rw [wordPages_eq] at hp
  apply Page.ext
  rw [Addr.toNat_floor, toNat_base_of_lt hp]
  exact Nat.mul_div_cancel _ (by decide)

theorem ceil_base (hp : p.index.toNat < wordPages) : p.base.ceil? = some p := by
  rw [wordPages_eq] at hp
  apply Addr.ceil?_eq_some.mpr
  rw [toNat_base_of_lt hp]
  omega

/-- First addresses are ordered as their pages are. -/
theorem base_le_base_iff (hp : p.index.toNat < wordPages) (hq : q.index.toNat < wordPages) :
    p.base.word ≤ q.base.word ↔ p.index ≤ q.index := by
  rw [← le_floor_iff hp, floor_base hq]

end Page

namespace Addr

variable {a b : Addr} {c : Page}

theorem ceil?_eq_none : a.ceil? = none ↔ UInt64.size - pageSize.toNat < a.word.toNat := by
  rw [toNat_pageSize, ← not_iff_not, Nat.not_lt, ← ne_eq, Option.ne_none_iff_exists']
  constructor
  · rintro ⟨c, hc⟩
    have hlt := (ceil?_eq_some.mp hc).1
    rw [UInt64.size]
    omega
  · intro h
    rw [UInt64.size] at h
    have hlt : a.word.toNat + 4095 < 2 ^ 64 := by omega
    have hpage : (a.word.toNat + 4095) / 4096 < 2 ^ 64 := by omega
    refine ⟨⟨UInt64.ofNat ((a.word.toNat + 4095) / 4096)⟩, ceil?_eq_some.mpr ⟨hlt, ?_⟩⟩
    exact UInt64.toNat_ofNat_of_lt' hpage

theorem floor_lt (a : Addr) : a.floor.index.toNat < wordPages := by
  have hword := a.word.toNat_lt
  rw [toNat_floor, wordPages_eq]
  omega

theorem ceil_lt (hc : a.ceil? = some c) : c.index.toNat < wordPages := by
  obtain ⟨hlt, hceil⟩ := ceil?_eq_some.mp hc
  rw [hceil, wordPages_eq]
  omega

/-- The page of an address starts at or before it. -/
theorem base_floor_le (a : Addr) : a.floor.base.word ≤ a.word :=
  (Page.le_floor_iff a.floor_lt).mp UInt64.le_rfl

/-- The page that an address is rounded up to starts at or after it. -/
theorem le_base_ceil (hc : a.ceil? = some c) : a.word ≤ c.base.word :=
  (Page.ceil_le_iff (ceil_lt hc) hc).mp UInt64.le_rfl

theorem floor_le_ceil (h : a.word ≤ b.word) (hc : b.ceil? = some c) : a.floor.index ≤ c.index := by
  apply (Page.base_le_base_iff a.floor_lt (ceil_lt hc)).mp
  calc a.floor.base.word ≤ a.word := base_floor_le a
    _ ≤ b.word := h
    _ ≤ c.base.word := le_base_ceil hc

end Addr

/-- The area that covers a region in order ends where the end is rounded up to, if it can be. -/
theorem Area.covering_of_le {r : Region} {c : Page} (h : r.start.word ≤ r.stop.word)
    (hc : r.stop.ceil? = some c) :
    Area.covering r = .ok ⟨⟨r.start.floor, c, Addr.floor_le_ceil h hc⟩, r.access⟩ := by
  simp only [covering, hc, PageRange.between, Addr.floor_le_ceil h hc, dif_pos, Except.map]

theorem Area.covering_ne_backwards {r : Region} (h : r.start.word ≤ r.stop.word) (lo hi : Page) :
    Area.covering r ≠ .error (.backwards lo hi) := by
  cases hc : r.stop.ceil? with
  | none => simp [covering, hc]
  | some c => simp [covering_of_le h hc]

/-- Rounding is exact for every page that has an address: it is adjoint to the first address on both
sides, and both roundings undo the first address. Rounding up overflows exactly above the start of
the topmost page. The rounded ends of a region in order are in order and bound its area, which never
fails for being backwards. -/
theorem rounding_exact (a b : Addr) (access : Access) {p : Page} (hp : p.index.toNat < wordPages) :
    (p.index ≤ a.floor.index ↔ p.base.word ≤ a.word) ∧
    (a.ceil? = none ↔ UInt64.size - pageSize.toNat < a.word.toNat) ∧
    (∀ c, a.ceil? = some c → (c.index ≤ p.index ↔ a.word ≤ p.base.word)) ∧
    (a.word ≤ b.word → ∀ c, b.ceil? = some c → ∃ h : a.floor.index ≤ c.index,
      Area.covering ⟨a, b, access⟩ = .ok ⟨⟨a.floor, c, h⟩, access⟩) ∧
    (a.word ≤ b.word → ∀ lo hi, Area.covering ⟨a, b, access⟩ ≠ .error (.backwards lo hi)) ∧
    p.base.floor = p ∧ p.base.ceil? = some p := by
  refine ⟨Page.le_floor_iff hp, Addr.ceil?_eq_none, ?_, ?_, ?_, Page.floor_base hp,
    Page.ceil_base hp⟩
  · intro c hc
    exact Page.ceil_le_iff hp hc
  · intro h c hc
    exact ⟨Addr.floor_le_ceil h hc, Area.covering_of_le h hc⟩
  · intro h
    exact Area.covering_ne_backwards h

/-- The last address before the topmost page is rounded up to that page, and the area from there to
its start has the page below it. -/
theorem rounding_exact_topmost :
    let p : Page := ⟨0xfffffffffffff⟩
    let a : Addr := ⟨0xffffffffffffefff⟩
    p.index.toNat < wordPages ∧ a.word ≤ p.base.word ∧ a.ceil? = some p ∧
      (p.index ≤ a.floor.index ↔ p.base.word ≤ a.word) ∧
      (p.index ≤ p.index ↔ a.word ≤ p.base.word) ∧
      (∃ h : a.floor.index ≤ p.index,
        Area.covering ⟨a, p.base, .all⟩ = .ok ⟨⟨a.floor, p, h⟩, .all⟩) ∧
      Area.covering ⟨a, p.base, .all⟩ ≠ .error (.backwards p p) ∧
      p.base.floor = p ∧ p.base.ceil? = some p := by
  intro p a
  have hp : p.index.toNat < wordPages := by decide
  have hle : a.word ≤ p.base.word := by decide
  have hceil : a.ceil? = some p := by decide
  obtain ⟨hfloor, -, hup, hcovers, hforwards, hdown, htop⟩ := rounding_exact a p.base .all hp
  exact ⟨hp, hle, hceil, hfloor, hup p hceil, hcovers hle p htop, hforwards hle p p, hdown, htop⟩

end Lifecycle
