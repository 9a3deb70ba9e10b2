import Lifecycle.Proofs.Table.Sound
/-!
# Processes that end together

What the ends of several processes amount to, in one step and without an order. Each of them leaves
a zombie with its code, and whoever had one of them as a parent goes to the adopter. A process is
handed a zombie when a child of its own ends, and the adopter also when it gets an orphan that has
ended; if callers are blocked on its behalf, it wakes. To end one after the other comes to the same
as to end together.
-/

namespace Lifecycle

/-- The processes that end, with their codes. -/
abbrev Codes := Pid → Option ExitCode

/-- One process ends. -/
def Codes.one (p : Pid) (code : ExitCode) : Codes := fun q => if q = p then some code else none

/-- The processes of two kinds end. -/
def Codes.or (c d : Codes) : Codes := fun p => (c p).or (d p)

namespace Codes

/-- The processes of a list end. -/
def of : List (Pid × ExitCode) → Codes
  | [] => fun _ => none
  | (p, code) :: rest => (one p code).or (of rest)

variable {l l' : List (Pid × ExitCode)} {p : Pid} {code : ExitCode}

theorem of_eq_none (h : ∀ e ∈ l, e.1 ≠ p) : of l p = none := by
  induction l with
  | nil => rfl
  | cons e rest ih =>
    have hne : p ≠ e.1 := (h e List.mem_cons_self).symm
    have hrest := ih fun e' he' => h e' (List.mem_cons_of_mem e he')
    simp [of, Codes.or, one, hne, hrest]

/-- In a list without repetitions every process ends with its own code. -/
theorem of_eq_some (hn : (l.map Prod.fst).Nodup) : of l p = some code ↔ (p, code) ∈ l := by
  induction l with
  | nil => simp [of]
  | cons e rest ih =>
    obtain ⟨q, c⟩ := e
    rw [List.map_cons, List.nodup_cons] at hn
    by_cases hp : p = q
    · subst hp
      have hout : (p, code) ∉ rest := fun hm => hn.1 (List.mem_map.mpr ⟨_, hm, rfl⟩)
      simp [of, Codes.or, one, hout, eq_comm]
    · simp [of, Codes.or, one, hp, ih hn.2]

theorem of_perm (hn : (l.map Prod.fst).Nodup) (h : l'.Perm l) : of l' = of l := by
  funext p
  ext code
  rw [of_eq_some hn, of_eq_some ((h.map Prod.fst).nodup_iff.mpr hn), h.mem_iff]

end Codes

namespace Slot

variable {s : Slot} {adopter p q : Pid} {codes c d : Codes}

/-- The code with which the process of a slot ends, if it does. -/
def endsWith? (s : Slot) (codes : Codes) : Option ExitCode :=
  if s.inUse then s.pid.bind codes else none

theorem endsWith?_eq_some {code : ExitCode} :
    s.endsWith? codes = some code ↔ ∃ p, s.holds p = true ∧ codes p = some code := by
  simp only [endsWith?, holds_iff]
  split <;> simp_all [Option.bind_eq_some_iff]

theorem endsWith?_of_holds (h : s.holds p = true) : s.endsWith? codes = codes p := by
  obtain ⟨hu, hpid⟩ := holds_iff.mp h
  rw [endsWith?, if_pos hu, hpid, Option.bind_some]

theorem isSome_endsWith?_one {code : ExitCode} :
    (s.endsWith? (.one p code)).isSome = s.holds p := by
  rw [Bool.eq_iff_iff, Option.isSome_iff_exists]
  simp only [endsWith?_eq_some, Codes.one]
  constructor
  · intro h
    obtain ⟨_, q, hq, hcode⟩ := h
    split at hcode
    · rename_i hqp
      rwa [← hqp]
    · simp at hcode
  · intro h
    exact ⟨code, p, h, if_pos rfl⟩

/-- The parent of a process after the ends. -/
def heir? (s : Slot) (adopter : Pid) (codes : Codes) : Option Pid :=
  s.parent.map fun q => if (codes q).isSome then adopter else q

theorem heir?_one {code : ExitCode} : s.heir? adopter (.one p code) =
    if s.parent = some p then some adopter else s.parent := by
  rw [heir?]
  cases s.parent with
  | none => rfl
  | some q => by_cases hq : q = p <;> simp [Codes.one, hq]

/-- A slot after the ends, before anybody is woken. -/
def fell (s : Slot) (adopter : Pid) (codes : Codes) : Slot :=
  match s.endsWith? codes with
  | some code =>
    { s with
      status := .zombie, parent := s.heir? adopter codes, exitCode := some code, space := none }
  | none => { s with parent := s.heir? adopter codes }

/-- The ends hand the zombie of a slot to a process: its heir, if it is new as a zombie or as the
heir's child. -/
def hands (s : Slot) (adopter : Pid) (codes : Codes) (q : Pid) : Bool :=
  s.inUse && s.heir? adopter codes = some q &&
    ((s.endsWith? codes).isSome || s.isZombie && (s.parent.bind codes).isSome)

theorem fell_of_some {code : ExitCode} (h : s.endsWith? codes = some code) :
    s.fell adopter codes = { s with
      status := .zombie, parent := s.heir? adopter codes, exitCode := some code, space := none } := by
  rw [fell, h]

theorem fell_of_none (h : s.endsWith? codes = none) :
    s.fell adopter codes = { s with parent := s.heir? adopter codes } := by
  rw [fell, h]

@[simp] theorem pid_fell : (s.fell adopter codes).pid = s.pid := by
  unfold fell
  split <;> rfl

@[simp] theorem parent_fell : (s.fell adopter codes).parent = s.heir? adopter codes := by
  unfold fell
  split <;> rfl

@[simp] theorem waiters_fell : (s.fell adopter codes).waiters = s.waiters := by
  unfold fell
  split <;> rfl

@[simp] theorem exitCode_fell :
    (s.fell adopter codes).exitCode = (s.endsWith? codes).or s.exitCode := by
  unfold fell
  split <;> simp_all

@[simp] theorem inUse_fell : (s.fell adopter codes).inUse = s.inUse := by
  by_cases hu : s.inUse = true
  · unfold fell
    split
    · rw [hu]
      rfl
    · rfl
  · rw [fell_of_none (by rw [endsWith?, if_neg hu])]
    rfl

@[simp] theorem isZombie_fell :
    (s.fell adopter codes).isZombie = ((s.endsWith? codes).isSome || s.isZombie) := by
  unfold fell
  split <;> simp_all [isZombie]

@[simp] theorem endsWith?_fell : (s.fell adopter c).endsWith? d = s.endsWith? d := by
  simp [endsWith?]

theorem endsWith?_or : s.endsWith? (c.or d) = (s.endsWith? c).or (s.endsWith? d) := by
  unfold endsWith?
  split
  · cases s.pid <;> simp [Codes.or]
  · rfl

theorem heir?_fell (hd : d adopter = none) :
    (s.fell adopter c).heir? adopter d = s.heir? adopter (c.or d) := by
  rw [heir?, parent_fell]
  unfold heir?
  cases s.parent with
  | none => rfl
  | some q =>
    by_cases hq : (c q).isSome = true <;> simp_all [Codes.or]

theorem fell_rouse : s.rouse.fell adopter codes = (s.fell adopter codes).rouse := by
  have he : s.rouse.endsWith? codes = s.endsWith? codes := by simp [endsWith?]
  have hh : s.rouse.heir? adopter codes = s.heir? adopter codes := by simp [heir?]
  cases h : s.endsWith? codes with
  | some code =>
    have hz : (s.fell adopter codes).isZombie = true := by simp [h]
    rw [rouse_of_zombie hz, fell_of_some h, fell_of_some (he.trans h), hh]
    by_cases hs : s.status = .sleeping <;> simp [rouse, hs]
  | none =>
    rw [fell_of_none h, fell_of_none (he.trans h), hh]
    by_cases hs : s.status = .sleeping <;> simp [rouse, hs]

theorem fell_fell (hcd : ∀ p, (c p).isSome = true → d p = none) (hd : d adopter = none) :
    (s.fell adopter c).fell adopter d = s.fell adopter (c.or d) := by
  have hor : s.endsWith? (c.or d) = (s.endsWith? c).or (s.endsWith? d) := endsWith?_or
  have hheir : (s.fell adopter c).heir? adopter d = _ := heir?_fell hd
  cases hc : s.endsWith? c with
  | some code =>
    obtain ⟨p, hp, hcode⟩ := endsWith?_eq_some.mp hc
    have hnone : s.endsWith? d = none := by
      rw [endsWith?_of_holds hp]
      exact hcd p (by rw [hcode]; rfl)
    rw [fell_of_none (endsWith?_fell.trans hnone), hheir, fell_of_some hc,
      fell_of_some (by rw [hor, hc]; rfl)]
  | none =>
    rw [hc, Option.none_or] at hor
    cases hcode : s.endsWith? d with
    | some code =>
      rw [fell_of_some (endsWith?_fell.trans hcode), hheir, fell_of_none hc,
        fell_of_some (hor.trans hcode)]
    | none =>
      rw [fell_of_none (endsWith?_fell.trans hcode), hheir, fell_of_none hc,
        fell_of_none (hor.trans hcode)]

theorem rouse_fell_of_ends (hp : s.pid = some p) (h : (codes p).isSome = true) :
    (s.fell adopter codes).rouse = s.fell adopter codes := by
  by_cases hu : s.inUse = true
  · exact rouse_of_zombie (by simp [endsWith?, hu, hp, h])
  · have hstatus : s.status = .unused := by simpa [inUse] using hu
    rw [fell_of_none (by rw [endsWith?, if_neg hu])]
    simp [rouse, hstatus]

theorem endsWith?_rouse : s.rouse.endsWith? codes = s.endsWith? codes := by
  simp [endsWith?]

theorem heir?_rouse : s.rouse.heir? adopter codes = s.heir? adopter codes := by
  simp [heir?]

@[simp] theorem hands_rouse : s.rouse.hands adopter codes q = s.hands adopter codes q := by
  simp [hands, endsWith?_rouse, heir?_rouse]

theorem hands_iff : s.hands adopter codes q = true ↔ s.inUse = true ∧
    s.heir? adopter codes = some q ∧ ((s.endsWith? codes).isSome = true ∨
      s.isZombie = true ∧ (s.parent.bind codes).isSome = true) := by
  simp [hands, and_assoc]

/-- Who is handed a zombie by ends of two kinds, is handed it by the first or by the second. -/
theorem hands_or (hcd : ∀ p, (c p).isSome = true → d p = none) (hd : d adopter = none)
    (hq : d q = none) : s.hands adopter (c.or d) q =
      (s.hands adopter c q || (s.fell adopter c).hands adopter d q) := by
  rw [Bool.eq_iff_iff, Bool.or_eq_true, hands_iff, hands_iff, hands_iff, heir?_fell hd]
  simp only [inUse_fell, endsWith?_fell, isZombie_fell, parent_fell, endsWith?_or]
  cases hparent : s.parent with
  | none => simp [heir?, hparent]
  | some r =>
    by_cases hr : (c r).isSome = true
    · -- The first kind leaves the zombie to the adopter already.
      have hr' := hcd r hr
      simp only [heir?, hparent, Option.map_some, Option.bind_some, Codes.or, hr, hr', hd,
        Option.isSome_or, Option.isSome_none, Bool.true_or, Bool.or_eq_true, if_true,
        Option.some.injEq, Bool.false_eq_true, and_true, and_false, or_false]
      tauto
    · have hr' : c r = none := by simpa using hr
      by_cases hdr : (d r).isSome = true
      · have hrq : r ≠ q := fun h => by simp [h, hq] at hdr
        simp [heir?, hparent, Codes.or, hr', hdr, hrq]
        tauto
      · simp [heir?, hparent, Codes.or, hr', hdr]
        tauto

end Slot

namespace Table

variable {t t' : Table} {c d codes : Codes} {s : Slot} {i : Nat}

theorem ext_slotAt (hcapacity : t'.capacity = t.capacity) (hpool : t'.pool = t.pool)
    (hadopter : t'.adopter = t.adopter) (h : ∀ i, t'.slotAt i = t.slotAt i) : t' = t := by
  obtain ⟨slots, pool, adopter⟩ := t
  obtain ⟨slots', pool', adopter'⟩ := t'
  obtain rfl : pool' = pool := hpool
  obtain rfl : adopter' = adopter := hadopter
  have hslots : slots' = slots := by
    refine List.ext_getElem hcapacity fun i hi hi' => ?_
    have hslot := h i
    rwa [slotAt_getElem hi, slotAt_getElem hi'] at hslot
  rw [hslots]

/-- The ends wake the callers of a slot. -/
def rouses (t : Table) (codes : Codes) (s : Slot) : Bool :=
  s.waiters ≠ 0 && s.pid.any fun p => t.slots.any (·.hands t.adopter codes p)

/-- The table after the ends. -/
def ending (t : Table) (codes : Codes) : Table :=
  { t with slots := t.slots.map fun s =>
      if t.rouses codes s then (s.fell t.adopter codes).rouse else s.fell t.adopter codes }

theorem rouses_iff : t.rouses codes s = true ↔ s.waiters ≠ 0 ∧ ∃ p, s.pid = some p ∧
    ∃ j, (t.slotAt j).hands t.adopter codes p = true := by
  have hany : ∀ p, t.slots.any (·.hands t.adopter codes p) = true ↔
      ∃ j, (t.slotAt j).hands t.adopter codes p = true := fun p => any_slots rfl
  simp only [rouses, Bool.and_eq_true, decide_eq_true_eq, Option.any_eq_true, hany]

@[simp] theorem capacity_ending : (t.ending codes).capacity = t.capacity := by
  simp [ending, capacity]

theorem slotAt_ending (i : Nat) : (t.ending codes).slotAt i =
    if t.rouses codes (t.slotAt i) then ((t.slotAt i).fell t.adopter codes).rouse
    else (t.slotAt i).fell t.adopter codes := by
  by_cases hi : i < t.slots.length
  · simp [slotAt_eq, ending, hi]
  · simp [slotAt_eq, ending, hi]
    rfl

/-- What only the ends change is the same after the ends and whoever was woken. -/
private theorem slotAt_ending_congr {α : Type} {g : Slot → α} (hg : ∀ s : Slot, g s.rouse = g s)
    (i : Nat) : g ((t.ending codes).slotAt i) = g ((t.slotAt i).fell t.adopter codes) := by
  rw [slotAt_ending]
  split
  · exact hg _
  · rfl

@[simp] theorem pid_ending (i : Nat) : ((t.ending codes).slotAt i).pid = (t.slotAt i).pid :=
  (slotAt_ending_congr Slot.pid_rouse i).trans Slot.pid_fell

@[simp] theorem waiters_ending (i : Nat) :
    ((t.ending codes).slotAt i).waiters = (t.slotAt i).waiters :=
  (slotAt_ending_congr Slot.waiters_rouse i).trans Slot.waiters_fell

@[simp] theorem inUse_ending (i : Nat) : ((t.ending codes).slotAt i).inUse = (t.slotAt i).inUse :=
  (slotAt_ending_congr Slot.inUse_rouse i).trans Slot.inUse_fell

@[simp] theorem holds_ending (i : Nat) (p : Pid) :
    ((t.ending codes).slotAt i).holds p = (t.slotAt i).holds p := by
  simp [Slot.holds]

theorem isZombie_ending (i : Nat) : ((t.ending codes).slotAt i).isZombie =
    (((t.slotAt i).endsWith? codes).isSome || (t.slotAt i).isZombie) :=
  (slotAt_ending_congr Slot.isZombie_rouse i).trans Slot.isZombie_fell

theorem exitCode_ending (i : Nat) : ((t.ending codes).slotAt i).exitCode =
    ((t.slotAt i).endsWith? codes).or (t.slotAt i).exitCode :=
  (slotAt_ending_congr Slot.exitCode_rouse i).trans Slot.exitCode_fell

/-- A process that does not end stays as it is, or it wakes. -/
theorem status_ending (h : (t.slotAt i).endsWith? codes = none) :
    ((t.ending codes).slotAt i).status = (t.slotAt i).status ∨
      (t.slotAt i).status = .sleeping ∧ ((t.ending codes).slotAt i).status = .runnable := by
  rw [slotAt_ending, Slot.fell_of_none h]
  by_cases hs : (t.slotAt i).status = .sleeping
  · split <;> simp [Slot.rouse, hs]
  · left
    split <;> simp [Slot.rouse, hs]

theorem ending_none : t.ending (fun _ => none) = t := by
  refine ext_slotAt (by simp) rfl rfl fun i => ?_
  have hends : (t.slotAt i).endsWith? (fun _ => none) = none := by simp [Slot.endsWith?]
  have hfell : (t.slotAt i).fell t.adopter (fun _ => none) = t.slotAt i := by
    rw [Slot.fell_of_none hends]
    simp [Slot.heir?]
  have hquiet : t.rouses (fun _ => none) (t.slotAt i) = false := by
    rw [Bool.eq_false_iff, ne_eq, rouses_iff]
    simp [Slot.hands, Slot.endsWith?]
  rw [slotAt_ending, hquiet, hfell]
  rfl

theorem hands_slotAt_ending (j : Nat) (q : Pid) :
    ((t.ending c).slotAt j).hands t.adopter d q =
      ((t.slotAt j).fell t.adopter c).hands t.adopter d q := by
  rw [slotAt_ending]
  split
  · exact Slot.hands_rouse
  · rfl

/-- The callers of a process that does not end later are woken by the first ends or by the second.
-/
theorem rouses_or (hcd : ∀ p, (c p).isSome = true → d p = none) (hd : d t.adopter = none)
    (hi : ∀ p, (t.slotAt i).pid = some p → d p = none) :
    t.rouses (c.or d) (t.slotAt i) =
      (t.rouses c (t.slotAt i) || (t.ending c).rouses d ((t.ending c).slotAt i)) := by
  rw [Bool.eq_iff_iff, Bool.or_eq_true, rouses_iff, rouses_iff, rouses_iff, pid_ending,
    waiters_ending, ← and_or_left]
  refine and_congr_right fun _ => ?_
  have hhands : ∀ p, (t.slotAt i).pid = some p → ∀ j,
      (t.slotAt j).hands t.adopter (c.or d) p = true ↔
        (t.slotAt j).hands t.adopter c p = true ∨
          ((t.ending c).slotAt j).hands t.adopter d p = true := by
    intro p hp j
    rw [hands_slotAt_ending, Slot.hands_or hcd hd (hi p hp), Bool.or_eq_true]
  constructor
  · intro h
    obtain ⟨p, hp, j, hj⟩ := h
    exact ((hhands p hp j).mp hj).imp (fun hj => ⟨p, hp, j, hj⟩) fun hj => ⟨p, hp, j, hj⟩
  · intro h
    rcases h with ⟨p, hp, j, hj⟩ | ⟨p, hp, j, hj⟩
    · exact ⟨p, hp, j, (hhands p hp j).mpr (.inl hj)⟩
    · exact ⟨p, hp, j, (hhands p hp j).mpr (.inr hj)⟩

/-- Ends of two kinds, one after the other, come to the ends of both together. -/
theorem ending_ending (hcd : ∀ p, (c p).isSome = true → d p = none) (hd : d t.adopter = none) :
    (t.ending c).ending d = t.ending (c.or d) := by
  refine ext_slotAt (by simp) rfl rfl fun i => ?_
  have hor : ((t.slotAt i).fell t.adopter c).fell t.adopter d =
      (t.slotAt i).fell t.adopter (c.or d) := Slot.fell_fell hcd hd
  have hfirst : (t.ending c).slotAt i = _ := slotAt_ending i
  have hsecond : ((t.ending c).ending d).slotAt i =
      if (t.ending c).rouses d ((t.ending c).slotAt i) then
        (((t.ending c).slotAt i).fell t.adopter d).rouse
      else ((t.ending c).slotAt i).fell t.adopter d := slotAt_ending i
  have hboth : (t.ending (c.or d)).slotAt i = _ := slotAt_ending i
  rw [hsecond, hboth]
  by_cases hends : ∃ p, (t.slotAt i).pid = some p ∧ (d p).isSome = true
  · -- The process ends later: whether it wakes in between makes no difference.
    obtain ⟨p, hp, hdp⟩ := hends
    have hstill : ((t.slotAt i).fell t.adopter (c.or d)).rouse =
        (t.slotAt i).fell t.adopter (c.or d) :=
      Slot.rouse_fell_of_ends hp (by simp [Codes.or, hdp])
    have hfell : ((t.ending c).slotAt i).fell t.adopter d =
        (t.slotAt i).fell t.adopter (c.or d) := by
      rw [hfirst]
      split
      · rw [Slot.fell_rouse, hor, hstill]
      · exact hor
    rw [hfell, hstill, ite_self, ite_self]
  · have hd' : ∀ p, (t.slotAt i).pid = some p → d p = none := by simpa using hends
    rw [rouses_or hcd hd hd']
    generalize (t.ending c).rouses d ((t.ending c).slotAt i) = woken
    rw [hfirst]
    cases t.rouses c (t.slotAt i) <;> cases woken <;> simp [Slot.fell_rouse, hor]

end Table

end Lifecycle
