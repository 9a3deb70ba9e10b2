import Lifecycle.Proofs.Table.Slots
/-!
# Sound tables

What holds of every table that a kernel can come to hold: the adopter lives in the first slot, no
identity is shared, exit codes belong to zombies, and every parent is alive. A table changes in four
ways only. Processes go on, a process is put into a free slot, a process ends and its children go to
the adopter, and a zombie is cleared away. Each way keeps a sound table sound.
-/

namespace Lifecycle

namespace Slot

/-- The process of a slot goes on: nothing happened that ends it or makes it another one. -/
structure Continues (s s' : Slot) : Prop where
  pid : s'.pid = s.pid
  parent : s'.parent = s.parent
  exitCode : s'.exitCode = s.exitCode
  blank : s.inUse = false → s' = s
  status : s'.status = s.status ∧ s'.space = s.space ∨
    (s.status = .used ∨ s.status.isAlive = true) ∧ s'.status.isAlive = true

namespace Continues

variable {s s' s'' : Slot}

theorem refl (s : Slot) : Continues s s := ⟨rfl, rfl, rfl, fun _ => rfl, .inl ⟨rfl, rfl⟩⟩

/-- A living process goes on if it stays alive. -/
theorem of_alive (ha : s.status.isAlive = true) (ha' : s'.status.isAlive = true)
    (hpid : s'.pid = s.pid) (hparent : s'.parent = s.parent) (hcode : s'.exitCode = s.exitCode) :
    Continues s s' :=
  ⟨hpid, hparent, hcode, fun hu => by simp [inUse_of_alive ha] at hu, .inr ⟨.inr ha, ha'⟩⟩

theorem mark (ha : s.status.isAlive = true) : Continues s { s with killed := true } :=
  of_alive ha ha rfl rfl rfl

theorem inUse (h : Continues s s') : s'.inUse = s.inUse := by
  rcases h.status with ⟨hs, -⟩ | ⟨hs, hs'⟩
  · simp only [Slot.inUse, hs]
  · rw [inUse_of_alive hs']
    rcases hs with hs | hs
    · simp [Slot.inUse, hs]
    · rw [inUse_of_alive hs]

theorem isZombie (h : Continues s s') : s'.isZombie = s.isZombie := by
  rcases h.status with ⟨hs, -⟩ | ⟨hs, hs'⟩
  · simp only [Slot.isZombie, hs]
  · rw [not_zombie_of_alive hs']
    rcases hs with hs | hs
    · simp [Slot.isZombie, hs]
    · rw [not_zombie_of_alive hs]

theorem alive (h : Continues s s') (ha : s.status.isAlive = true) : s'.status.isAlive = true := by
  rcases h.status with ⟨hs, -⟩ | ⟨-, hs⟩
  · rwa [hs]
  · exact hs

theorem holds (h : Continues s s') (p : Pid) : s'.holds p = s.holds p := by
  simp only [Slot.holds, h.inUse, h.pid]

theorem isChildOf (h : Continues s s') (p : Pid) : s'.isChildOf p = s.isChildOf p := by
  simp only [Slot.isChildOf, h.inUse, h.parent]

theorem matching? (h : Continues s s') (p : Pid) (target : Target) :
    s'.matching? p target = s.matching? p target := by
  simp only [Slot.matching?, h.isChildOf, h.pid]

theorem trans (h : Continues s s') (h' : Continues s' s'') : Continues s s'' where
  pid := h'.pid.trans h.pid
  parent := h'.parent.trans h.parent
  exitCode := h'.exitCode.trans h.exitCode
  blank := fun hs => (h'.blank (h.inUse.trans hs)).trans (h.blank hs)
  status := by
    rcases h.status with ⟨hs, hsp⟩ | ⟨hs, ha⟩
    · rcases h'.status with ⟨hs', hsp'⟩ | ⟨hs', ha'⟩
      · exact .inl ⟨hs'.trans hs, hsp'.trans hsp⟩
      · exact .inr ⟨by rwa [hs] at hs', ha'⟩
    · exact .inr ⟨hs, h'.alive ha⟩

end Continues

/-- A slot does not contradict itself: a process has an identity, an exit code only if it is a zombie
and then always, and no address space before it is started and after its end. Without a process the
slot is blank. -/
structure Sound (s : Slot) : Prop where
  named : s.inUse = true → ∃ p, s.pid = some p
  exitCode_iff : s.exitCode.isSome = s.isZombie
  no_space : s.status = .zombie ∨ s.status = .used → s.space = none
  blank : s.inUse = false → s = .blank

/-- A slot holds the adopter: alive, not marked as killed, and without a parent. -/
structure IsAdopter (s : Slot) (p : Pid) : Prop where
  pid : s.pid = some p
  alive : s.status.isAlive = true
  unkilled : s.killed = false
  root : s.parent = none

theorem holds_taken {p parent q : Pid} : (taken p parent).holds q = true ↔ p = q := by
  simp [holds, taken, inUse]

namespace Sound

variable {s s' : Slot}

theorem inUse_of_ne (h : s.Sound) (hne : s ≠ .blank) : s.inUse = true := by
  by_contra hu
  exact hne (h.blank (by simpa using hu))

theorem of_blank : Slot.blank.Sound :=
  ⟨fun h => by simp at h, rfl, fun _ => rfl, fun _ => rfl⟩

theorem of_taken (p parent : Pid) : (taken p parent).Sound :=
  ⟨fun _ => ⟨p, rfl⟩, rfl, fun _ => rfl, fun h => by simp [taken, inUse] at h⟩

theorem continues (h : s.Sound) (hc : s.Continues s') : s'.Sound where
  named := fun hu => by
    rw [hc.inUse] at hu
    rw [hc.pid]
    exact h.named hu
  exitCode_iff := by rw [hc.exitCode, hc.isZombie, h.exitCode_iff]
  no_space := fun hs => by
    rcases hc.status with ⟨hst, hsp⟩ | ⟨-, ha⟩
    · rw [hsp]
      exact h.no_space (by rwa [hst] at hs)
    · rcases hs with hs | hs <;> simp [hs, Status.isAlive] at ha
  blank := fun hu => by
    rw [hc.inUse] at hu
    rw [hc.blank hu, h.blank hu]

theorem ended (h : s.Sound) (hu : s.inUse = true) (code : ExitCode) :
    Slot.Sound { s with status := .zombie, exitCode := some code, space := none } :=
  ⟨fun _ => h.named hu, rfl, fun _ => rfl, fun hf => by simp [inUse] at hf⟩

theorem adopted (h : s.Sound) (hu : s.inUse = true) (q : Pid) :
    Slot.Sound { s with parent := some q } := by
  refine ⟨h.named, h.exitCode_iff, h.no_space, fun hf => ?_⟩
  change s.inUse = false at hf
  rw [hu] at hf
  simp at hf

end Sound

end Slot

namespace Table

/-- All processes of a table go on. -/
structure Continues (t t' : Table) : Prop where
  capacity : t'.capacity = t.capacity
  pool : t'.pool = t.pool
  adopter : t'.adopter = t.adopter
  slots : ∀ i, (t.slotAt i).Continues (t'.slotAt i)

namespace Continues

variable {t t' t'' : Table}

theorem refl (t : Table) : Continues t t := ⟨rfl, rfl, rfl, fun _ => .refl _⟩

theorem trans (h : Continues t t') (h' : Continues t' t'') : Continues t t'' :=
  ⟨h'.capacity.trans h.capacity, h'.pool.trans h.pool, h'.adopter.trans h.adopter,
    fun i => (h.slots i).trans (h'.slots i)⟩

theorem modifySlot {i : Nat} {f : Slot → Slot} (hi : i < t.capacity)
    (h : (t.slotAt i).Continues (f (t.slotAt i))) : Continues t (t.modifySlot i f) := by
  refine ⟨capacity_modifySlot .., rfl, rfl, fun j => ?_⟩
  rw [slotAt_modifySlot hi]
  split
  · rename_i hij
    rwa [← hij]
  · exact .refl _

theorem slotOf? (h : Continues t t') {p : Pid} : t'.slotOf? p = t.slotOf? p := by
  ext i
  simp only [slotOf?_eq_some, (h.slots _).holds]

end Continues

/-- An identity belongs to a living process. -/
def Living (t : Table) (p : Pid) : Prop :=
  ∃ j, (t.slotAt j).holds p = true ∧ (t.slotAt j).status.isAlive = true

/-- The table has the adopter in its first slot, no slot contradicts itself, no two processes have
one identity, and every other process has a living parent. -/
structure Sound (t : Table) : Prop where
  adopter : (t.slotAt 0).IsAdopter t.adopter
  slots : ∀ i, (t.slotAt i).Sound
  holds_unique : ∀ i j p, (t.slotAt i).holds p = true → (t.slotAt j).holds p = true → i = j
  parent_alive : ∀ i, i ≠ 0 → (t.slotAt i).inUse = true →
    ∃ q, (t.slotAt i).parent = some q ∧ t.Living q

/-- The processes can be ranked so that each parent stands below its children, the adopter lowest.
-/
def Ranked (t : Table) : Prop :=
  ∃ rank : Pid → Nat, rank t.adopter = 0 ∧ ∀ i p q, (t.slotAt i).holds p = true →
    (t.slotAt i).parent = some q → rank q < rank p

theorem Ranked.parent_ne {t : Table} (h : t.Ranked) {i : Nat} {p q : Pid}
    (hp : (t.slotAt i).holds p = true) (hq : (t.slotAt i).parent = some q) : q ≠ p := by
  obtain ⟨rank, -, hrank⟩ := h
  intro heq
  subst heq
  exact absurd (hrank i q q hp hq) (Nat.lt_irrefl _)

namespace Sound

variable {t : Table}

theorem adopter_holds (h : t.Sound) : (t.slotAt 0).holds t.adopter = true :=
  Slot.holds_iff.mpr ⟨Slot.inUse_of_alive h.adopter.alive, h.adopter.pid⟩

theorem capacity_pos (h : t.Sound) : 0 < t.capacity := lt_capacity_of_holds h.adopter_holds

theorem slotOf?_of_holds (h : t.Sound) {i : Nat} {p : Pid} (hp : (t.slotAt i).holds p = true) :
    t.slotOf? p = some i := by
  refine slotOf?_eq_some.mpr ⟨hp, fun j hj => ?_⟩
  by_contra hne
  have hij := h.holds_unique j i p (by simpa using hne) hp
  omega

theorem aliveSlot_of_holds (h : t.Sound) {i : Nat} {p : Pid} (hp : (t.slotAt i).holds p = true)
    (ha : (t.slotAt i).status.isAlive = true) : t.aliveSlot p = .ok i := by
  rw [aliveSlot, h.slotOf?_of_holds hp]
  exact if_pos ha

/-- A wait for a given child finds it if it can be collected. -/
theorem find_only (h : t.Sound) {i : Nat} {q p : Pid} {code : ExitCode}
    (hr : (t.slotAt i).remains? q (.only p) = some (p, code)) :
    t.find q (.only p) = .found i p code := by
  refine find_eq_found_iff.mpr ⟨hr, fun j hj => ?_⟩
  rw [Option.eq_none_iff_forall_ne_some]
  intro x hx
  have hm := (Slot.remains?_eq_some.mp hx).1
  have hmatches := (Slot.matching?_eq_some.mp hm).2.2
  obtain rfl : p = x.1 := by simpa [Target.matches] using hmatches
  have hslot := h.holds_unique i j x.1
    (Slot.holds_of_matching? (Slot.remains?_eq_some.mp hr).1) (Slot.holds_of_matching? hm)
  omega

theorem ne_zero_of_free (h : t.Sound) {i : Nat} (hfree : (t.slotAt i).inUse = false) : i ≠ 0 :=
  ne_of_free hfree (Slot.inUse_of_alive h.adopter.alive)

theorem ne_zero_of_zombie (h : t.Sound) {i : Nat} (hz : (t.slotAt i).isZombie = true) : i ≠ 0 :=
  ne_of_zombie hz h.adopter.alive

theorem slotOf?_adopter (h : t.Sound) : t.slotOf? t.adopter = some 0 :=
  h.slotOf?_of_holds h.adopter_holds

theorem eq_zero_iff (h : t.Sound) {i : Nat} {p : Pid} (hp : (t.slotAt i).holds p = true) :
    i = 0 ↔ p = t.adopter := by
  constructor
  · intro heq
    subst heq
    exact Slot.holds_inj hp h.adopter_holds
  · intro heq
    subst heq
    exact h.holds_unique _ _ _ hp h.adopter_holds

theorem ne_zero_of_parent (h : t.Sound) {i : Nat} {q : Pid} (hq : (t.slotAt i).parent = some q) :
    i ≠ 0 := by
  intro heq
  subst heq
  rw [h.adopter.root] at hq
  simp at hq

theorem inUse_of_parent (h : t.Sound) {i : Nat} {q : Pid} (hq : (t.slotAt i).parent = some q) :
    (t.slotAt i).inUse = true := by
  apply (h.slots i).inUse_of_ne
  intro hblank
  rw [hblank] at hq
  simp at hq

theorem inUse_of_waiters (h : t.Sound) {i : Nat} (hw : (t.slotAt i).waiters ≠ 0) :
    (t.slotAt i).inUse = true := by
  apply (h.slots i).inUse_of_ne
  intro hblank
  rw [hblank] at hw
  exact hw rfl

/-- The parent link of a process names a living process. -/
theorem parent_holds (h : t.Sound) {i : Nat} {q : Pid} (hu : (t.slotAt i).inUse = true)
    (hq : (t.slotAt i).parent = some q) : t.Living q := by
  obtain ⟨q', hq', hj⟩ := h.parent_alive i (h.ne_zero_of_parent hq) hu
  rw [hq] at hq'
  rwa [Option.some.inj hq']

/-- A process that has ended has no children. -/
theorem childSlots_of_zombie (h : t.Sound) {i : Nat} {p : Pid} (hp : (t.slotAt i).holds p = true)
    (hz : (t.slotAt i).isZombie = true) : t.childSlots p = [] := by
  rw [childSlots, List.filter_eq_nil_iff]
  intro s hs hc
  obtain ⟨j, -, rfl⟩ := exists_slotAt hs
  obtain ⟨hu, hparent⟩ := Slot.isChildOf_iff.mp hc
  obtain ⟨m, hm, ha⟩ := h.parent_holds hu hparent
  rw [h.holds_unique m i p hm hp] at ha
  rw [Slot.not_zombie_of_alive ha] at hz
  exact absurd hz (by decide)

end Sound

/-! ## Processes go on -/

section Continues

variable {t t' : Table}

theorem Sound.continues (h : t.Sound) (hc : t.Continues t')
    (hk : (t'.slotAt 0).killed = false) : t'.Sound where
  adopter := ⟨by rw [(hc.slots 0).pid, hc.adopter, h.adopter.pid],
    (hc.slots 0).alive h.adopter.alive, hk, by rw [(hc.slots 0).parent, h.adopter.root]⟩
  slots := fun i => (h.slots i).continues (hc.slots i)
  holds_unique := fun i j p hi hj =>
    h.holds_unique i j p (by rwa [(hc.slots i).holds] at hi) (by rwa [(hc.slots j).holds] at hj)
  parent_alive := fun i hi hu => by
    rw [(hc.slots i).inUse] at hu
    obtain ⟨q, hq, j, hj, ha⟩ := h.parent_alive i hi hu
    exact ⟨q, by rw [(hc.slots i).parent, hq], j, by rw [(hc.slots j).holds, hj],
      (hc.slots j).alive ha⟩

theorem Ranked.continues (h : t.Ranked) (hc : t.Continues t') : t'.Ranked := by
  obtain ⟨rank, h0, hrank⟩ := h
  refine ⟨rank, by rw [hc.adopter, h0], fun i p q hp hq => ?_⟩
  rw [(hc.slots i).holds] at hp
  rw [(hc.slots i).parent] at hq
  exact hrank i p q hp hq

end Continues

/-! ## A process is put into a free slot -/

section Take

variable {t : Table} {i : Nat} {p parent : Pid} {pool : PidPool}

/-- The table after a slot has been taken. -/
def take (t : Table) (i : Nat) (p parent : Pid) (pool : PidPool) : Table :=
  { t.setSlot i (.taken p parent) with pool := pool }

/-- The table after a slot has been taken for the next identity of the pool. -/
abbrev fill (t : Table) (i : Nat) (parent : Pid) : Table :=
  t.take i t.pool.issue.1 parent t.pool.issue.2

@[simp] theorem capacity_take : (t.take i p parent pool).capacity = t.capacity :=
  capacity_setSlot ..

theorem slotAt_take (hi : i < t.capacity) (j : Nat) :
    (t.take i p parent pool).slotAt j = if i = j then .taken p parent else t.slotAt j :=
  slotAt_setSlot hi _ j

theorem Sound.take (h : t.Sound) (hi : i < t.capacity) (hfree : (t.slotAt i).inUse = false)
    (hp : ∀ j, (t.slotAt j).holds p = false) (hparent : t.Living parent) :
    (t.take i p parent pool).Sound := by
  have h0 : i ≠ 0 := h.ne_zero_of_free hfree
  have hslot : ∀ j, (t.take i p parent pool).slotAt j =
      if i = j then .taken p parent else t.slotAt j := slotAt_take hi
  have hslot0 := hslot 0
  rw [if_neg h0] at hslot0
  have halive : ∀ q, t.Living q → (t.take i p parent pool).Living q := by
    -- Only the free slot changes, so whoever was alive before is where it was.
    intro q hx
    obtain ⟨j, hj, ha⟩ := hx
    have hij := ne_of_free hfree (Slot.inUse_of_alive ha)
    exact ⟨j, by rwa [hslot, if_neg hij], by rwa [hslot, if_neg hij]⟩
  constructor
  case adopter =>
    rw [hslot0]
    exact h.adopter
  case slots =>
    intro j
    rw [hslot]
    split
    · exact .of_taken p parent
    · exact h.slots j
  case holds_unique =>
    intro j m q hj hm
    rw [hslot] at hj hm
    by_cases hij : i = j <;> by_cases him : i = m
    · omega
    · rw [if_pos hij, Slot.holds_taken] at hj
      rw [if_neg him, ← hj, hp] at hm
      simp at hm
    · rw [if_pos him, Slot.holds_taken] at hm
      rw [if_neg hij, ← hm, hp] at hj
      simp at hj
    · rw [if_neg hij] at hj
      rw [if_neg him] at hm
      exact h.holds_unique j m q hj hm
  case parent_alive =>
    intro j hj0 hj
    rw [hslot] at hj
    by_cases hij : i = j
    · exact ⟨parent, by rw [hslot, if_pos hij]; rfl, halive parent hparent⟩
    · rw [if_neg hij] at hj
      obtain ⟨q, hq, hex⟩ := h.parent_alive j hj0 hj
      exact ⟨q, by rw [hslot, if_neg hij, hq], halive q hex⟩

/-- The new process is ranked above its parent; nobody has it as a parent yet. -/
theorem Ranked.take (h : t.Ranked) (hs : t.Sound) (hi : i < t.capacity)
    (hp : ∀ j, (t.slotAt j).holds p = false) (hparent : t.Living parent) :
    (t.take i p parent pool).Ranked := by
  obtain ⟨rank, h0, hrank⟩ := h
  have hfresh : ∀ {q : Pid}, (∃ j, (t.slotAt j).holds q = true) → q ≠ p := by
    intro q hex heq
    obtain ⟨j, hj⟩ := hex
    subst heq
    rw [hp] at hj
    simp at hj
  have hpp : parent ≠ p := hfresh ⟨_, hparent.choose_spec.1⟩
  refine ⟨fun q => if q = p then rank parent + 1 else rank q, ?_, fun j q r hq hr => ?_⟩
  · exact (if_neg (hfresh ⟨0, hs.adopter_holds⟩)).trans h0
  · rw [slotAt_take hi] at hq hr
    show (if r = p then _ else _) < (if q = p then _ else _)
    by_cases hij : i = j
    · rw [if_pos hij, Slot.holds_taken] at hq
      rw [if_pos hij] at hr
      obtain rfl : parent = r := Option.some.inj hr
      rw [if_neg hpp, if_pos hq.symm]
      omega
    · rw [if_neg hij] at hq hr
      obtain ⟨m, hm, -⟩ := hs.parent_holds (Slot.holds_iff.mp hq).1 hr
      rw [if_neg (hfresh ⟨m, hm⟩), if_neg (hfresh ⟨j, hq⟩)]
      exact hrank j q r hq hr

end Take

/-! ## A process ends -/

section Fall

variable {t : Table} {i : Nat} {p : Pid} {code : ExitCode}

/-- The table after a process has ended and its children have gone to the adopter. -/
def fall (t : Table) (i : Nat) (p : Pid) (code : ExitCode) : Table :=
  (t.setSlot i
    { t.slotAt i with status := .zombie, exitCode := some code, space := none }).adopt p

@[simp] theorem capacity_fall : (t.fall i p code).capacity = t.capacity := by
  rw [fall, capacity_adopt, capacity_setSlot]

theorem slotAt_fall_self (hp : (t.slotAt i).holds p = true) (hne : (t.slotAt i).parent ≠ some p) :
    (t.fall i p code).slotAt i =
      { t.slotAt i with status := .zombie, exitCode := some code, space := none } := by
  rw [fall, slotAt_adopt, slotAt_setSlot (lt_capacity_of_holds hp), if_pos rfl, if_neg]
  rw [Slot.isChildOf_iff]
  exact fun h => hne h.2

theorem slotAt_fall_other {j : Nat} (hi : i < t.capacity) (hij : i ≠ j) :
    (t.fall i p code).slotAt j =
      if (t.slotAt j).isChildOf p then { t.slotAt j with parent := some t.adopter }
      else t.slotAt j := by
  rw [fall, slotAt_adopt, slotAt_setSlot hi, if_neg hij]
  rfl

/-- Of the others only the parent links change. -/
theorem slotAt_fall_eq {j : Nat} (hi : i < t.capacity) (hij : i ≠ j) :
    (t.fall i p code).slotAt j =
      { t.slotAt j with parent := ((t.fall i p code).slotAt j).parent } := by
  rw [slotAt_fall_other hi hij]
  split <;> rfl

variable (hs : t.Sound) (hr : t.Ranked) (hp : (t.slotAt i).holds p = true) (hne : p ≠ t.adopter)

include hr hp in
theorem Ranked.slotAt_fall_self : (t.fall i p code).slotAt i =
    { t.slotAt i with status := .zombie, exitCode := some code, space := none } :=
  Table.slotAt_fall_self hp fun h => hr.parent_ne hp h rfl

include hr hp in
theorem Ranked.inUse_fall (j : Nat) :
    ((t.fall i p code).slotAt j).inUse = (t.slotAt j).inUse := by
  by_cases hij : i = j
  · subst hij
    rw [hr.slotAt_fall_self hp, (Slot.holds_iff.mp hp).1]
    rfl
  · rw [slotAt_fall_eq (lt_capacity_of_holds hp) hij]
    rfl

include hr hp in
theorem Ranked.holds_fall (j : Nat) (q : Pid) :
    ((t.fall i p code).slotAt j).holds q = (t.slotAt j).holds q := by
  rw [Slot.holds, hr.inUse_fall hp, Slot.holds]
  by_cases hij : i = j
  · subst hij
    rw [hr.slotAt_fall_self hp]
  · rw [slotAt_fall_eq (lt_capacity_of_holds hp) hij]

include hs hr hp hne in
theorem Sound.fall : (t.fall i p code).Sound := by
  have hi := lt_capacity_of_holds hp
  have h0 : i ≠ 0 := fun h => hne ((hs.eq_zero_iff hp).mp h)
  have hself : (t.fall i p code).slotAt i = _ := hr.slotAt_fall_self hp
  have hslot0 : (t.fall i p code).slotAt 0 = t.slotAt 0 := by
    rw [slotAt_fall_other hi h0, if_neg]
    rw [Slot.isChildOf_iff, hs.adopter.root]
    simp
  -- The adopter and every parent other than the process that ended stay alive where they are.
  have halive : ∀ {q : Pid}, q ≠ p → t.Living q → (t.fall i p code).Living q := by
    intro q hq hx
    obtain ⟨j, hj, ha⟩ := hx
    have hij : i ≠ j := by
      intro heq
      subst heq
      exact hq (Slot.holds_inj hj hp)
    exact ⟨j, by rw [hr.holds_fall hp, hj], by rwa [slotAt_fall_eq hi hij]⟩
  constructor
  case adopter =>
    rw [hslot0]
    exact hs.adopter
  case slots =>
    intro j
    by_cases hij : i = j
    · subst hij
      rw [hself]
      exact (hs.slots i).ended (Slot.holds_iff.mp hp).1 code
    · rw [slotAt_fall_other hi hij]
      split
      · rename_i hc
        exact (hs.slots j).adopted (Slot.isChildOf_iff.mp hc).1 t.adopter
      · exact hs.slots j
  case holds_unique =>
    intro j m q hj hm
    rw [hr.holds_fall hp] at hj hm
    exact hs.holds_unique j m q hj hm
  case parent_alive =>
    intro j hj0 hj
    rw [hr.inUse_fall hp] at hj
    obtain ⟨q, hq, hex⟩ := hs.parent_alive j hj0 hj
    by_cases hij : i = j
    · subst hij
      exact ⟨q, by rw [hself]; exact hq, halive (hr.parent_ne hp hq) hex⟩
    · rw [slotAt_fall_other hi hij]
      by_cases hc : (t.slotAt j).isChildOf p = true
      · rw [if_pos hc]
        exact ⟨t.adopter, rfl, halive hne.symm ⟨0, hs.adopter_holds, hs.adopter.alive⟩⟩
      · rw [if_neg hc]
        refine ⟨q, hq, halive ?_ hex⟩
        intro heq
        subst heq
        exact hc (Slot.isChildOf_iff.mpr ⟨hj, hq⟩)

include hr hp in
/-- An orphan stays above the adopter, which ranks lowest. -/
theorem Ranked.fall : (t.fall i p code).Ranked := by
  have hr' := hr
  obtain ⟨rank, h0, hrank⟩ := hr
  refine ⟨rank, h0, fun j q r hq hparent => ?_⟩
  rw [hr'.holds_fall hp] at hq
  by_cases hij : i = j
  · subst hij
    rw [hr'.slotAt_fall_self hp] at hparent
    exact hrank i q r hq hparent
  · rw [slotAt_fall_other (lt_capacity_of_holds hp) hij] at hparent
    by_cases hc : (t.slotAt j).isChildOf p = true
    · rw [if_pos hc] at hparent
      have hlow := hrank j q p hq (Slot.isChildOf_iff.mp hc).2
      obtain rfl : t.adopter = r := Option.some.inj hparent
      omega
    · rw [if_neg hc] at hparent
      exact hrank j q r hq hparent

end Fall

/-! ## A zombie is cleared away -/

section Drop

variable {t : Table} {i : Nat} {pool : PidPool}

/-- The table after a slot has been freed. -/
def drop (t : Table) (i : Nat) (pool : PidPool) : Table :=
  { t.setSlot i .blank with pool := pool }

/-- The table after a slot has been freed and its identity returned. -/
abbrev vacate (t : Table) (i : Nat) (p : Pid) : Table :=
  t.drop i { t.pool with returned := p :: t.pool.returned }

@[simp] theorem capacity_drop : (t.drop i pool).capacity = t.capacity := capacity_setSlot ..

theorem slotAt_drop (hi : i < t.capacity) (j : Nat) :
    (t.drop i pool).slotAt j = if i = j then .blank else t.slotAt j :=
  slotAt_setSlot hi _ j

theorem clear?_eq_some {p : Pid} {t' : Table} (h : t.clear? i p = some t') :
    ∃ pool, t.pool.release? p = some pool ∧ t' = t.drop i pool := by
  rw [clear?] at h
  split at h
  · obtain ⟨pool, hpool, rfl⟩ := Option.map_eq_some_iff.mp h
    exact ⟨pool, hpool, rfl⟩
  · simp at h

theorem Sound.drop (h : t.Sound) (hz : (t.slotAt i).isZombie = true) :
    (t.drop i pool).Sound := by
  have hi := lt_capacity_of_inUse (Slot.inUse_of_zombie hz)
  have hslot : ∀ j, (t.drop i pool).slotAt j = if i = j then .blank else t.slotAt j :=
    slotAt_drop hi
  have hslot0 := hslot 0
  rw [if_neg (h.ne_zero_of_zombie hz)] at hslot0
  constructor
  case adopter =>
    rw [hslot0]
    exact h.adopter
  case slots =>
    intro j
    rw [hslot]
    split
    · exact .of_blank
    · exact h.slots j
  case holds_unique =>
    intro j m q hj hm
    rw [hslot] at hj hm
    split at hj
    · simp at hj
    · split at hm
      · simp at hm
      · exact h.holds_unique j m q hj hm
  case parent_alive =>
    intro j hj0 hj
    rw [hslot] at hj
    split at hj
    · simp at hj
    · rename_i hij
      obtain ⟨q, hq, m, hm, ha⟩ := h.parent_alive j hj0 hj
      have him := ne_of_zombie hz ha
      exact ⟨q, by rw [hslot, if_neg hij, hq], m, by rw [hslot, if_neg him, hm],
        by rw [hslot, if_neg him, ha]⟩

theorem Ranked.drop (h : t.Ranked) (hi : i < t.capacity) : (t.drop i pool).Ranked := by
  obtain ⟨rank, h0, hrank⟩ := h
  refine ⟨rank, h0, fun j q r hq hr => ?_⟩
  rw [slotAt_drop hi] at hq hr
  split at hq
  · simp at hq
  · rename_i hij
    rw [if_neg hij] at hr
    exact hrank j q r hq hr

end Drop

/-! ## The table a kernel starts with -/

section Boot

variable {config : Config} {t : Table}

theorem boot_eq_ok (h : boot config = .ok t) :
    0 < config.capacity ∧ t.capacity = config.capacity ∧ t.adopter = config.adopter ∧
      t.pool = .fresh config.adopter ∧
      (t.slotAt 0 = { Slot.blank with
        pid := some config.adopter, status := .running, space := some .empty }) ∧
      ∀ i, i ≠ 0 → t.slotAt i = .blank := by
  rw [boot] at h
  split at h
  · simp at h
  · rename_i n hn
    simp only [Except.ok.injEq] at h
    subst h
    refine ⟨by omega, by simp [capacity, hn], rfl, rfl, rfl, fun i hi => ?_⟩
    obtain ⟨j, rfl⟩ := Nat.exists_eq_succ_of_ne_zero hi
    rw [slotAt_eq, Nat.succ_eq_add_one, List.getElem?_cons_succ, List.getElem?_replicate]
    split <;> rfl

theorem Sound.boot (h : Table.boot config = .ok t) : t.Sound := by
  obtain ⟨-, -, hadopter, -, h0, hrest⟩ := boot_eq_ok h
  constructor
  case adopter =>
    rw [h0, hadopter]
    exact ⟨rfl, rfl, rfl, rfl⟩
  case slots =>
    intro i
    by_cases hi0 : i = 0
    · rw [hi0, h0]
      exact ⟨fun _ => ⟨_, rfl⟩, rfl, fun hs => by simp at hs, fun hu => by simp [Slot.inUse] at hu⟩
    · rw [hrest i hi0]
      exact .of_blank
  case holds_unique =>
    intro i j p hi hj
    by_cases hi0 : i = 0 <;> by_cases hj0 : j = 0
    · omega
    · simp [hrest j hj0] at hj
    · simp [hrest i hi0] at hi
    · simp [hrest i hi0] at hi
  case parent_alive =>
    intro i hi0 hi
    simp [hrest i hi0] at hi

theorem Ranked.boot (h : Table.boot config = .ok t) : t.Ranked := by
  obtain ⟨-, -, -, -, h0, hrest⟩ := boot_eq_ok h
  refine ⟨fun _ => 0, rfl, fun i p q hp hq => ?_⟩
  by_cases hi : i = 0
  · simp [hi, h0] at hq
  · simp [hrest i hi] at hp

end Boot

end Table

end Lifecycle
