import Mathlib.Data.List.GetD
import Lifecycle.Proofs.Kernel.Kin
/-!
# Who has which slot

Whose a slot is, under which parent, and with which code its process ended: this is the tenancy of the
slot. Only deeds change tenancies and the pool of identities. A birth gives the first free slot to the
next identity. An end puts down the exit code and makes the children the adopter's. A collection frees
the slot and returns the identity. As long as none has been returned, the identities go up one by one
past the adopter's. The tenancies after the adopter's, in slot order, make up the roster of a table.
-/

namespace Lifecycle

/-! ## Identities in order -/

namespace PidPool

/-- The identities that a fresh pool hands out one after the other. -/
def nth (reserved : Pid) (n : Nat) : Pid := ⟨if n < reserved.number then n else n + 1⟩

/-- A pool that has handed out some identities and got none back. -/
def dealt (reserved : Pid) (n : Nat) : PidPool :=
  ⟨if n ≤ reserved.number then n else n + 1, [], reserved⟩

variable {reserved : Pid} {n m : Nat}

theorem dealt_zero (reserved : Pid) : dealt reserved 0 = fresh reserved := rfl

@[simp] theorem issue_dealt (reserved : Pid) (n : Nat) :
    (dealt reserved n).issue = (nth reserved n, dealt reserved (n + 1)) := by
  rw [issue_nil rfl, dealt, dealt, nth]
  obtain ⟨r⟩ := reserved
  simp only [Prod.mk.injEq, Pid.mk.injEq, PidPool.mk.injEq, and_true]
  rcases Nat.lt_trichotomy n r with hlt | rfl | hgt
  · rw [if_pos hlt.le, if_neg hlt.ne, if_pos hlt, if_pos (Nat.succ_le_of_lt hlt)]
    exact ⟨rfl, rfl⟩
  · rw [if_pos (Nat.le_refl n), if_pos rfl, if_neg (Nat.lt_irrefl n), if_neg (Nat.not_succ_le_self n)]
    exact ⟨rfl, rfl⟩
  · rw [if_neg hgt.not_ge, if_neg (by omega), if_neg hgt.not_gt, if_neg (by omega)]
    exact ⟨rfl, rfl⟩

theorem nth_inj (h : nth reserved n = nth reserved m) : n = m := by
  have hnumber := congrArg Pid.number h
  simp only [nth] at hnumber
  split at hnumber <;> split at hnumber <;> omega

theorem nth_ne (reserved : Pid) (n : Nat) : nth reserved n ≠ reserved := by
  intro h
  have hnumber := congrArg Pid.number h
  simp only [nth] at hnumber
  split at hnumber <;> omega

end PidPool

/-! ## Tenancies -/

/-- Whose a slot is, under which parent, and with which code its process ended. -/
structure Tenancy where
  pid : Option Pid
  parent : Option Pid
  exitCode : Option ExitCode
deriving DecidableEq

def Slot.tenancy (s : Slot) : Tenancy := ⟨s.pid, s.parent, s.exitCode⟩

namespace Tenancy

def vacant : Tenancy := ⟨none, none, none⟩

/-- The tenancy of a process that has not ended. -/
def live (p parent : Pid) : Tenancy := ⟨some p, some parent, none⟩

/-- The tenancy of a process that has ended. -/
def dead (p parent : Pid) (code : ExitCode) : Tenancy := ⟨some p, some parent, some code⟩

/-- A tenancy after the end of a process: its own has the code, and those of its children the adopter
as their parent. -/
def ended (e : Tenancy) (adopter p : Pid) (code : ExitCode) : Tenancy :=
  if e.pid = some p then { e with exitCode := some code }
  else if e.parent = some p then { e with parent := some adopter }
  else e

@[simp] theorem vacant_ended (adopter p : Pid) (code : ExitCode) :
    vacant.ended adopter p code = vacant := rfl

theorem live_ended_self (adopter p parent : Pid) (code : ExitCode) :
    (live p parent).ended adopter p code = dead p parent code := if_pos rfl

/-- A child is handed to the adopter. -/
theorem live_ended_parent {p parent : Pid} (hne : p ≠ parent) (adopter : Pid) (code : ExitCode) :
    (live p parent).ended adopter parent code = live p adopter := by
  have hself : ¬some p = some parent := fun heq => hne (Option.some.inj heq)
  exact (if_neg hself).trans (if_pos rfl)

theorem dead_ended_parent {p parent : Pid} (hne : p ≠ parent) (adopter : Pid)
    (code last : ExitCode) :
    (dead p parent code).ended adopter parent last = dead p adopter code := by
  have hself : ¬some p = some parent := fun heq => hne (Option.some.inj heq)
  exact (if_neg hself).trans (if_pos rfl)

/-- Who is neither the process that ends nor a child of it stays as it is. -/
theorem ended_other {e : Tenancy} {q : Pid} (hp : e.pid ≠ some q) (hparent : e.parent ≠ some q)
    (adopter : Pid) (code : ExitCode) : e.ended adopter q code = e :=
  (if_neg hp).trans (if_neg hparent)

theorem live_ended_other {p parent q : Pid} (hp : p ≠ q) (hparent : parent ≠ q) (adopter : Pid)
    (code : ExitCode) : (live p parent).ended adopter q code = live p parent :=
  ended_other (fun heq => hp (Option.some.inj heq)) (fun heq => hparent (Option.some.inj heq)) _ _

theorem dead_ended_other {p parent q : Pid} {code : ExitCode} (hp : p ≠ q) (hparent : parent ≠ q)
    (adopter : Pid) (last : ExitCode) :
    (dead p parent code).ended adopter q last = dead p parent code :=
  ended_other (fun heq => hp (Option.some.inj heq)) (fun heq => hparent (Option.some.inj heq)) _ _

end Tenancy

namespace Slot

variable {s s' : Slot} {p parent : Pid} {code : ExitCode}

theorem Continues.tenancy (h : s.Continues s') : s'.tenancy = s.tenancy := by
  rw [Slot.tenancy, h.pid, h.parent, h.exitCode]
  rfl

namespace Sound

theorem inUse_eq (h : s.Sound) : s.inUse = s.pid.isSome := by
  cases hu : s.inUse with
  | true =>
    obtain ⟨p, hp⟩ := h.named hu
    rw [hp]
    rfl
  | false =>
    rw [h.blank hu]
    rfl

theorem holds_iff (h : s.Sound) : s.holds p = true ↔ s.pid = some p := by
  rw [Slot.holds_iff, h.inUse_eq, and_iff_right_iff_imp]
  intro hp
  rw [hp]
  rfl

theorem vacant_iff (h : s.Sound) : s.tenancy = .vacant ↔ s.inUse = false := by
  constructor
  · intro he
    rw [h.inUse_eq, show s.pid = none from congrArg Tenancy.pid he]
    rfl
  · intro hu
    rw [h.blank hu]
    rfl

theorem holds_of_live (h : s.Sound) (he : s.tenancy = .live p parent) : s.holds p = true :=
  h.holds_iff.mpr (congrArg Tenancy.pid he)

theorem not_zombie_of_live (h : s.Sound) (he : s.tenancy = .live p parent) : s.isZombie = false := by
  rw [← h.exitCode_iff, show s.exitCode = none from congrArg Tenancy.exitCode he]
  rfl

theorem holds_of_dead (h : s.Sound) (he : s.tenancy = .dead p parent code) : s.holds p = true :=
  h.holds_iff.mpr (congrArg Tenancy.pid he)

theorem zombie_of_dead (h : s.Sound) (he : s.tenancy = .dead p parent code) : s.isZombie = true := by
  rw [← h.exitCode_iff, show s.exitCode = some code from congrArg Tenancy.exitCode he]
  rfl

/-- What a parent can collect once nobody is blocked there. -/
theorem remains_of_dead (h : s.Sound) (he : s.tenancy = .dead p parent code) (hw : s.waiters = 0)
    {target : Target} (hm : target.matches p = true) :
    s.remains? parent target = some (p, code) := by
  have hp := h.holds_of_dead he
  refine Slot.remains?_eq_some.mpr ⟨Slot.matching?_eq_some.mpr ⟨?_, ?_, hm⟩, hw,
    h.zombie_of_dead he, congrArg Tenancy.exitCode he⟩
  · exact Slot.isChildOf_iff.mpr ⟨(Slot.holds_iff.mp hp).1, congrArg Tenancy.parent he⟩
  · exact (Slot.holds_iff.mp hp).2

end Sound

end Slot

/-! ## Deeds -/

namespace Scene

variable {x y : Scene} {p q : Pid} {code : ExitCode}

theorem Moves.tenancies (hm : Moves x [] y) : y.table.pool = x.table.pool ∧
    ∀ j, (y.table.slotAt j).tenancy = (x.table.slotAt j).tenancy :=
  ⟨hm.continues.pool, fun j => (hm.continues.slots j).tenancy⟩

/-- A birth gives the first free slot to the next identity. -/
theorem Moves.tenancies_born (hm : Moves x [.born q] y) : q = x.table.pool.issue.1 ∧
    y.table.pool = x.table.pool.issue.2 ∧ ∃ i parent, x.table.freeSlot? = some i ∧
      ∀ j, (y.table.slotAt j).tenancy =
        if i = j then .live q parent else (x.table.slotAt j).tenancy := by
  obtain ⟨x', y', hx, hd, hy⟩ := hm.split
  obtain ⟨hpool, htenancy⟩ := Moves.tenancies hx
  obtain ⟨hpool', htenancy'⟩ := Moves.tenancies hy
  generalize hds : [Deed.born q] = ds at hd
  cases hd with
  | @take _ i parent free living =>
    obtain rfl : q = x'.table.pool.issue.1 := by cases hds; rfl
    have hfree : x.table.freeSlot? = some i := by
      obtain ⟨hi, hunused, hbefore⟩ := Table.freeSlot?_eq_some.mp free
      refine Table.freeSlot?_eq_some.mpr ⟨hx.continues.capacity ▸ hi, ?_, fun j hj => ?_⟩
      · rw [← (hx.continues.slots i).inUse]
        exact hunused
      · rw [← (hx.continues.slots j).inUse]
        exact hbefore j hj
    refine ⟨by rw [hpool], ?_, i, parent, hfree, fun j => ?_⟩
    · rw [hpool', ← hpool]
      rfl
    · rw [htenancy']
      show ((x'.table.fill i parent).slotAt j).tenancy = _
      rw [Table.slotAt_take (Table.freeSlot?_eq_some.mp free).1]
      split
      · rfl
      · exact htenancy j
  | _ => cases hds

/-- An end puts down the code and hands the children over. -/
theorem Moves.tenancies_ended (h : x.Sound) (hm : Moves x [.ended p code] y) :
    y.table.pool = x.table.pool ∧ ∀ j, (y.table.slotAt j).tenancy =
      (x.table.slotAt j).tenancy.ended x.table.adopter p code := by
  obtain ⟨x', y', hx, hd, hy⟩ := hm.split
  obtain ⟨hpool, htenancy⟩ := Moves.tenancies hx
  obtain ⟨hpool', htenancy'⟩ := Moves.tenancies hy
  have hx' := h.moves hx
  have hadopter : x'.table.adopter = x.table.adopter := hx.continues.adopter
  cases hd with
  | @fall _ i _ _ debts holds alive other self parent adopter =>
    have hi := Table.lt_capacity_of_holds holds
    refine ⟨hpool'.trans hpool, fun j => ?_⟩
    rw [htenancy', ← htenancy, ← hadopter]
    show ((x'.table.fall i p code).slotAt j).tenancy = _
    by_cases hij : i = j
    · subst hij
      rw [hx'.ranked.slotAt_fall_self holds]
      exact (if_pos (Slot.holds_iff.mp holds).2).symm
    · have hother : ¬(x'.table.slotAt j).pid = some p := fun hp =>
        hij (hx'.table.holds_unique i j p holds ((hx'.table.slots j).holds_iff.mpr hp))
      rw [Table.slotAt_fall_other hi hij]
      by_cases hchild : (x'.table.slotAt j).isChildOf p = true
      · rw [if_pos hchild]
        exact ((if_neg hother).trans (if_pos (Slot.isChildOf_iff.mp hchild).2)).symm
      · have hparent : ¬(x'.table.slotAt j).parent = some p := fun hq =>
          hchild (Slot.isChildOf_iff.mpr ⟨hx'.table.inUse_of_parent hq, hq⟩)
        rw [if_neg hchild]
        exact ((if_neg hother).trans (if_neg hparent)).symm

/-- A collection frees the slot of a zombie and returns its identity. -/
theorem Moves.tenancies_collected (hm : Moves x [.collected q p code] y) :
    y.table.pool = { x.table.pool with returned := p :: x.table.pool.returned } ∧
    ∃ i, (x.table.slotAt i).tenancy = .dead p q code ∧
      ∀ j, (y.table.slotAt j).tenancy = if i = j then .vacant else (x.table.slotAt j).tenancy := by
  obtain ⟨x', y', hx, hd, hy⟩ := hm.split
  obtain ⟨hpool, htenancy⟩ := Moves.tenancies hx
  obtain ⟨hpool', htenancy'⟩ := Moves.tenancies hy
  cases hd with
  | @drop _ i _ _ _ remains zombie empty parent code_eq =>
    refine ⟨?_, i, ?_, fun j => ?_⟩
    · rw [hpool', ← hpool]
      rfl
    · rw [← htenancy, Slot.tenancy, (Slot.holds_iff.mp remains).2, parent, code_eq]
      rfl
    · rw [htenancy']
      show ((x'.table.vacate i p).slotAt j).tenancy = _
      rw [Table.slotAt_drop (Table.lt_capacity_of_holds remains)]
      split
      · rfl
      · exact htenancy j

end Scene

/-! ## Rosters -/

/-- The tenancies of the slots after the adopter's, in order. The slots past the list are free. -/
def Table.Roster (t : Table) (l : List Tenancy) : Prop :=
  ∀ i, (t.slotAt (i + 1)).tenancy = l.getD i .vacant

namespace Table

variable {t : Table} {l : List Tenancy} {i : Nat} {p : Pid} {tenancy : Tenancy}

theorem Roster.slot (h : t.Roster l) (hi : l[i]? = some tenancy) :
    (t.slotAt (i + 1)).tenancy = tenancy := by
  rw [h, List.getD_eq_getElem?_getD, hi]
  rfl

theorem Roster.holds (h : t.Roster l) (hs : t.Sound) (hi : l[i]? = some tenancy)
    (hp : tenancy.pid = some p) : (t.slotAt (i + 1)).holds p = true :=
  (hs.slots (i + 1)).holds_iff.mpr ((congrArg Tenancy.pid (h.slot hi)).trans hp)

theorem Roster.parent? (h : t.Roster l) (hs : t.Sound) (hi : l[i]? = some tenancy)
    (hp : tenancy.pid = some p) : t.parent? p = tenancy.parent := by
  rw [Table.parent?, hs.slotOf?_of_holds (h.holds hs hi hp)]
  exact congrArg Tenancy.parent (h.slot hi)

/-- The roster tells who is a zombie. -/
theorem Roster.status? (h : t.Roster l) (hs : t.Sound) (hi : l[i]? = some tenancy)
    (hp : tenancy.pid = some p) :
    t.status? p = some .zombie ↔ tenancy.exitCode.isSome = true := by
  rw [Table.status?, hs.slotOf?_of_holds (h.holds hs hi hp), Option.map_some, Option.some_inj,
    ← Slot.isZombie_iff, ← (hs.slots (i + 1)).exitCode_iff, ← congrArg Tenancy.exitCode (h.slot hi)]
  rfl

/-- Past the roster there is room. -/
theorem Roster.room (h : t.Roster l) (hs : t.Sound) (hl : l.length + 1 < t.capacity) :
    ∃ i, t.freeSlot? = some i := by
  cases hfree : t.freeSlot? with
  | some i => exact ⟨i, rfl⟩
  | none =>
    rw [freeSlot?, List.findIdx?_eq_none_iff] at hfree
    have hused := hfree _ (slotAt_mem hl)
    have hvacant : (t.slotAt (l.length + 1)).tenancy = .vacant := by
      rw [h, List.getD_eq_default _ _ (Nat.le_refl _)]
    rw [(hs.slots _).vacant_iff.mp hvacant] at hused
    cases hused

/-- The first free slot of a roster without gaps is the one after it. -/
theorem Roster.freeSlot? (h : t.Roster l) (hs : t.Sound) (hl : ∀ tenancy ∈ l, tenancy ≠ .vacant)
    (hi : t.freeSlot? = some i) : i = l.length + 1 := by
  obtain ⟨-, hfree, hbefore⟩ := freeSlot?_eq_some.mp hi
  obtain ⟨n, rfl⟩ := Nat.exists_eq_succ_of_ne_zero (hs.ne_zero_of_free hfree)
  have hvacant := (hs.slots (n + 1)).vacant_iff.mpr hfree
  rw [h, List.getD_eq_getElem?_getD] at hvacant
  have hge : l.length ≤ n := by
    by_contra hlt
    rw [List.getElem?_eq_getElem (Nat.lt_of_not_le hlt)] at hvacant
    exact hl _ (List.getElem_mem _) hvacant
  rcases hge.lt_or_eq with hlt | rfl
  · have hused := hbefore (l.length + 1) (Nat.succ_lt_succ hlt)
    rw [(hs.slots _).vacant_iff.mp ((h l.length).trans (List.getD_eq_default _ _ (Nat.le_refl _)))]
      at hused
    cases hused
  · rfl

theorem Roster.boot {config : Config} (h : Table.boot config = .ok t) : t.Roster [] := by
  obtain ⟨-, -, -, -, -, hrest⟩ := Table.boot_eq_ok h
  intro i
  rw [hrest (i + 1) (Nat.succ_ne_zero i)]
  rfl

end Table

namespace Scene

variable {x y : Scene} {l : List Tenancy} {p q parent : Pid} {code : ExitCode}

theorem Moves.roster (hm : Moves x [] y) (h : x.table.Roster l) : y.table.Roster l :=
  fun i => (hm.tenancies.2 (i + 1)).trans (h i)

/-- Whoever is born comes last in a roster without gaps. -/
theorem Moves.roster_born (hm : Moves x [.born q] y) (hs : x.Sound) (h : x.table.Roster l)
    (hl : ∀ tenancy ∈ l, tenancy ≠ .vacant) (hg : x.table.Gains q parent y.table) :
    q = x.table.pool.issue.1 ∧ y.table.pool = x.table.pool.issue.2 ∧
      y.table.Roster (l ++ [.live q parent]) := by
  obtain ⟨hq, hpool, i, parent', hfree, htenancy⟩ := hm.tenancies_born
  obtain ⟨-, n, space, hunused, -, hslot⟩ := hg
  obtain rfl := h.freeSlot? hs.table hl hfree
  have hself : (y.table.slotAt n).tenancy = .live q parent := by
    rw [hslot, if_pos rfl]
    rfl
  -- the slot that was gained is the first free one, as nobody else is new
  obtain rfl : l.length + 1 = n := by
    by_contra hne
    rw [htenancy, if_neg hne, ((hs.table.slots n).vacant_iff).mpr hunused] at hself
    cases hself
  refine ⟨hq, hpool, fun i => ?_⟩
  by_cases hi : l.length = i
  · subst hi
    rw [hself, List.getD_append_right _ _ _ _ (Nat.le_refl _), Nat.sub_self]
    rfl
  · rw [htenancy, if_neg fun heq => hi (Nat.succ_inj.mp heq), h]
    rcases Nat.lt_or_gt_of_ne hi with hlt | hgt
    · rw [List.getD_eq_default _ _ hlt.le, List.getD_eq_default]
      rw [List.length_append]
      exact hlt
    · rw [List.getD_append _ _ _ _ hgt]

theorem Moves.roster_ended (hm : Moves x [.ended p code] y) (hs : x.Sound) (h : x.table.Roster l) :
    y.table.Roster (l.map (·.ended x.table.adopter p code)) := by
  intro i
  rw [(hm.tenancies_ended hs).2, h, ← Tenancy.vacant_ended x.table.adopter p code, List.getD_map,
    Tenancy.vacant_ended]

theorem Moves.roster_collected (hm : Moves x [.collected q p code] y) (hs : x.Sound)
    (h : x.table.Roster l) {i : Nat} (hi : l[i]? = some (.dead p q code)) :
    y.table.Roster (l.set i .vacant) := by
  obtain ⟨-, n, hn, htenancy⟩ := hm.tenancies_collected
  obtain rfl : n = i + 1 := hs.table.holds_unique n (i + 1) p
    ((hs.table.slots n).holds_of_dead hn) (h.holds hs.table hi rfl)
  intro j
  rw [htenancy, h, List.getD_eq_getElem?_getD, List.getD_eq_getElem?_getD, List.getElem?_set]
  by_cases hij : i = j
  · subst hij
    rw [if_pos rfl, if_pos rfl, if_pos (List.getElem?_eq_some_iff.mp hi).1]
    rfl
  · rw [if_neg fun heq => hij (Nat.succ_inj.mp heq), if_neg hij]

end Scene

end Lifecycle
