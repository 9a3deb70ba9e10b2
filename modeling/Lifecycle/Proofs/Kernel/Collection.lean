import Lifecycle.Proofs.Kernel.Frames
/-!
# Ways to collect a child

A parent collects its children by a wait, by a wait that does not block, or by name. The three search
the table differently: a wait runs through the children of the parent, a collection by name looks the
child up in the whole table and then asks whose it is. In a sound table they agree on what can be
collected, on how they are refused, and on the table they leave behind.
-/

namespace Lifecycle

/-- A slot holds a child to collect: one that is waited for and has ended, and on whose behalf nobody
is blocked. -/
structure Slot.Due (s : Slot) (parent : Pid) (target : Target) (p : Pid) : Prop where
  holds : s.holds p = true
  parent : s.parent = some parent
  wanted : target.matches p = true
  zombie : s.isZombie = true
  empty : s.waiters = 0

theorem Slot.matching?_of_holds {s : Slot} {parent p : Pid} {target : Target}
    (hp : s.holds p = true) (hparent : s.parent = some parent)
    (hwanted : target.matches p = true) : s.matching? parent target = some p := by
  obtain ⟨hu, hpid⟩ := holds_iff.mp hp
  exact matching?_eq_some.mpr ⟨isChildOf_iff.mpr ⟨hu, hparent⟩, hpid, hwanted⟩

theorem Slot.remains?_iff_due {s : Slot} {parent p : Pid} {target : Target} {code : ExitCode} :
    s.remains? parent target = some (p, code) ↔
      s.Due parent target p ∧ s.exitCode = some code := by
  rw [remains?_eq_some]
  constructor
  · intro h
    obtain ⟨hm, hempty, hz, hcode⟩ := h
    exact ⟨⟨holds_of_matching? hm, parent_of_matching? hm, (matching?_eq_some.mp hm).2.2, hz,
      hempty⟩, hcode⟩
  · intro h
    obtain ⟨hdue, hcode⟩ := h
    exact ⟨matching?_of_holds hdue.holds hdue.parent hdue.wanted, hdue.empty, hdue.zombie, hcode⟩

theorem Slot.Sound.remains?_eq_none {s : Slot} (h : s.Sound) {parent : Pid} {target : Target} :
    s.remains? parent target = none ↔ ∀ p, ¬s.Due parent target p := by
  rw [Option.eq_none_iff_forall_ne_some]
  constructor
  · intro hnone p hdue
    obtain ⟨code, hcode⟩ := Option.isSome_iff_exists.mp (h.exitCode_iff.trans hdue.zombie)
    exact hnone (p, code) (remains?_iff_due.mpr ⟨hdue, hcode⟩)
  · intro hnone x hx
    exact hnone x.1 (remains?_iff_due.mp hx).1

namespace Table

variable {t : Table} {parent p child : Pid} {target : Target} {i : Nat} {code : ExitCode}

/-- A process can collect its children: it is alive and has not been killed. -/
def Attends (t : Table) (p : Pid) : Prop :=
  ∃ i, (t.slotAt i).holds p = true ∧ (t.slotAt i).status.isAlive = true ∧
    (t.slotAt i).killed = false

/-- The child that is found is the one in the lowest slot among those to collect. -/
theorem Sound.find_eq_found_iff_due (h : t.Sound) : t.find parent target = .found i p code ↔
    (t.slotAt i).Due parent target p ∧ (t.slotAt i).exitCode = some code ∧
      ∀ j < i, ∀ q, ¬(t.slotAt j).Due parent target q := by
  rw [find_eq_found_iff, Slot.remains?_iff_due, and_assoc]
  refine and_congr_right fun _ => and_congr_right fun _ => ?_
  exact forall_congr' fun j => forall_congr' fun _ => (h.slots j).remains?_eq_none

/-- A slot with a child that is waited for by its identity is that child's. -/
theorem Sound.slotOf?_of_matching? (h : t.Sound)
    (hm : (t.slotAt i).matching? parent (.only child) = some p) :
    t.slotOf? child = some i ∧ (t.slotAt i).parent = some parent := by
  obtain rfl : child = p := by
    have hwanted := (Slot.matching?_eq_some.mp hm).2.2
    simpa [Target.matches] using hwanted
  exact ⟨h.slotOf?_of_holds (Slot.holds_of_matching? hm), Slot.parent_of_matching? hm⟩

/-- Whoever is not there, or is not a child of the parent, is not found. -/
theorem Sound.find_only_noChildren (h : t.Sound)
    (hother : ∀ i, t.slotOf? child = some i → (t.slotAt i).parent ≠ some parent) :
    t.find parent (.only child) = .noChildren := by
  refine find_eq_noChildren.mpr fun i => ?_
  rw [Option.eq_none_iff_forall_ne_some]
  intro p hm
  obtain ⟨hslot, hparent⟩ := h.slotOf?_of_matching? hm
  exact hother i hslot hparent

/-- A child that cannot be collected yet is waited for. -/
theorem Sound.find_only_pending (h : t.Sound) (hi : t.slotOf? child = some i)
    (hparent : (t.slotAt i).parent = some parent)
    (hwait : ¬(t.slotAt i).Due parent (.only child) child) :
    t.find parent (.only child) = .pending := by
  have hwanted : (Target.only child).matches child = true := by simp [Target.matches]
  have hm := Slot.matching?_of_holds (holds_of_slotOf? hi) hparent hwanted
  refine find_eq_pending.mpr ⟨⟨i, by rw [hm]; rfl⟩, fun j => ?_⟩
  rw [(h.slots j).remains?_eq_none]
  intro p hdue
  have hmatch := Slot.matching?_of_holds hdue.holds hdue.parent hdue.wanted
  obtain rfl : child = p := by simpa [Target.matches] using hdue.wanted
  obtain rfl : i = j := Option.some.inj (hi.symm.trans (h.slotOf?_of_matching? hmatch).1)
  exact hwait hdue

end Table

/-- The child that a wait was given at once, if it did not block. -/
def Waiting.found? : Waiting → Option (Pid × ExitCode)
  | .collected p code => some (p, code)
  | .asleep _ => none

namespace Kernel

variable {x : Scene} {parent child : Pid} {target : Target}

/-- A wait does at once what a wait does that does not block, unless it blocks. -/
theorem wait_tryWait (k : Kernel) (parent : Pid) (target : Target) :
    (k.wait parent target).result.map Waiting.found? = (k.tryWait parent target).result ∧
      ((k.tryWait parent target).result ≠ .ok none →
        (k.wait parent target).kernel = (k.tryWait parent target).kernel) := by
  unfold wait tryWait
  cases k.table.aliveSlot parent with
  | error why => exact ⟨rfl, fun _ => rfl⟩
  | ok i =>
    dsimp only [look]
    split
    · exact ⟨rfl, fun _ => rfl⟩
    · cases k.table.find parent target with
      | found j p code =>
        refine ⟨?_, fun _ => rfl⟩
        dsimp only [Outcome.map]
        cases (k.collect parent j p code).result <;> rfl
      | pending => exact ⟨rfl, fun hne => absurd rfl hne⟩
      | noChildren => exact ⟨rfl, fun _ => rfl⟩

/-- Somebody who can collect does what the search for its children says. -/
theorem tryWait_of_attends (h : x.Sound) (hp : x.table.Attends parent) (target : Target) :
    x.kernel.tryWait parent target = match x.table.find parent target with
      | .found i p code => (x.kernel.collect parent i p code).map fun code => some (p, code)
      | .pending => x.kernel.answer none
      | .noChildren => x.kernel.refuse .noChildren := by
  obtain ⟨i, hi, ha, hk⟩ := hp
  have halive : x.kernel.table.aliveSlot parent = .ok i := h.table.aliveSlot_of_holds hi ha
  have hunkilled : ¬(x.kernel.table.slotAt i).killed = true := by
    rw [hk]
    decide
  unfold tryWait
  rw [halive]
  dsimp only
  exact if_neg hunkilled

/-- Nobody is given a child who is not alive or has been killed. -/
theorem attends_of_tryWait {k : Kernel} {found : Option (Pid × ExitCode)}
    (hr : (k.tryWait parent target).result = .ok found) : k.table.Attends parent := by
  unfold tryWait at hr
  cases ha : k.table.aliveSlot parent with
  | error why =>
    rw [ha] at hr
    cases hr
  | ok i =>
    obtain ⟨hslot, halive⟩ := Table.aliveSlot_eq_ok ha
    rw [ha] at hr
    dsimp only at hr
    split at hr
    · cases hr
    · rename_i hk
      exact ⟨i, Table.holds_of_slotOf? hslot, halive, by simpa using hk⟩

/-- What a wait without blocking hands out is the first child to collect. -/
theorem tryWait_found_iff (h : x.Sound) {p : Pid} {code : ExitCode} :
    (x.kernel.tryWait parent target).result = .ok (some (p, code)) ↔
      x.table.Attends parent ∧ ∃ i, x.table.find parent target = .found i p code := by
  constructor
  · intro hr
    have hp := attends_of_tryWait hr
    refine ⟨hp, ?_⟩
    rw [tryWait_of_attends h hp] at hr
    cases hf : x.table.find parent target with
    | found i q code' =>
      obtain ⟨hm, -, hz, -⟩ := Slot.remains?_eq_some.mp (Table.find_eq_found hf)
      rw [hf] at hr
      dsimp only at hr
      rw [collect_eq h (Slot.holds_of_matching? hm) hz] at hr
      obtain ⟨rfl, rfl⟩ := Prod.mk.inj (Option.some.inj (Except.ok.inj hr))
      exact ⟨i, rfl⟩
    | pending =>
      rw [hf] at hr
      cases hr
    | noChildren =>
      rw [hf] at hr
      cases hr
  · intro hx
    obtain ⟨hp, i, hf⟩ := hx
    obtain ⟨hm, -, hz, -⟩ := Slot.remains?_eq_some.mp (Table.find_eq_found hf)
    rw [tryWait_of_attends h hp, hf]
    dsimp only
    rw [collect_eq h (Slot.holds_of_matching? hm) hz]
    rfl

/-- A collection by name does what the search for that child says, save that an identity nobody has
is refused as such. -/
theorem reap_of_attends (h : x.Sound) (hp : x.table.Attends parent) (child : Pid) :
    (∃ i code, x.table.find parent (.only child) = .found i child code ∧
        x.kernel.reap parent child = x.kernel.collect parent i child code) ∨
      (x.table.find parent (.only child) = .pending ∧
        ∃ status, x.kernel.reap parent child = x.kernel.refuse (.badStatus child status)) ∨
      x.table.find parent (.only child) = .noChildren ∧
        (x.kernel.reap parent child = x.kernel.refuse .noChildren ∨
          x.kernel.reap parent child = x.kernel.refuse (.noProcess child)) := by
  obtain ⟨j, hj, ha, -⟩ := hp
  have halive : x.kernel.table.aliveSlot parent = .ok j := h.table.aliveSlot_of_holds hj ha
  unfold reap
  rw [halive]
  dsimp only
  cases hs : x.kernel.table.slotOf? child with
  | none =>
    refine .inr (.inr ⟨h.table.find_only_noChildren fun i hi => ?_, .inr rfl⟩)
    cases hs.symm.trans hi
  | some i =>
    dsimp only
    split
    · rename_i hparent
      split
      · rename_i code hz hcode hempty
        have hdue : (x.table.slotAt i).Due parent (.only child) child :=
          ⟨Table.holds_of_slotOf? hs, hparent, by simp [Target.matches],
            Slot.isZombie_iff.mpr hz, hempty⟩
        exact .inl ⟨i, code, h.table.find_only (Slot.remains?_iff_due.mpr ⟨hdue, hcode⟩), rfl⟩
      · rename_i hnot
        refine .inr (.inl ⟨h.table.find_only_pending hs hparent fun hdue => ?_, _, rfl⟩)
        obtain ⟨code, hcode⟩ := Option.isSome_iff_exists.mp
          ((h.table.slots i).exitCode_iff.trans hdue.zombie)
        exact hnot code (Slot.isZombie_iff.mp hdue.zombie) hcode hdue.empty
    · rename_i hparent
      refine .inr (.inr ⟨h.table.find_only_noChildren fun m hm => ?_, .inl rfl⟩)
      rwa [← Option.some.inj (hs.symm.trans hm)]

/-- A collection by name and a wait for that child come to the same. -/
theorem reap_tryWait (h : x.Sound) (hp : x.table.Attends parent) (child : Pid) :
    (∀ code, (x.kernel.reap parent child).result = .ok code ↔
        (x.kernel.tryWait parent (.only child)).result = .ok (some (child, code))) ∧
      ((∃ p status, (x.kernel.reap parent child).result = .error (.refused (.badStatus p status))) ↔
        (x.kernel.tryWait parent (.only child)).result = .ok none) ∧
      ((x.kernel.reap parent child).result = .error (.refused .noChildren) ∨
          (x.kernel.reap parent child).result = .error (.refused (.noProcess child)) ↔
        (x.kernel.tryWait parent (.only child)).result = .error (.refused .noChildren)) ∧
      (x.kernel.reap parent child).kernel = (x.kernel.tryWait parent (.only child)).kernel := by
  rw [tryWait_of_attends h hp]
  rcases reap_of_attends h hp child with
    ⟨i, code, hf, hr⟩ | ⟨hf, status, hr⟩ | ⟨hf, hr | hr⟩ <;> rw [hf, hr]
  · obtain ⟨hm, -, hz, -⟩ := Slot.remains?_eq_some.mp (Table.find_eq_found hf)
    dsimp only
    rw [collect_eq h (Slot.holds_of_matching? hm) hz]
    simp [Outcome.map, Except.map]
  · simp [refuse, fail, answer]
  · simp [refuse, fail]
  · simp [refuse, fail]

end Kernel

namespace Session

variable {config : Config} {s : Session}

/-- A wait by a new caller blocks, or it returns what a wait does that does not block. -/
theorem wait_cases (s : Session) (parent : Pid) (target : Target) :
    ((∃ id, (s.wait parent target).2.1 = .blocked id) ↔
        (s.kernel.tryWait parent target).result = .ok none) ∧
      ∀ result, (s.wait parent target).2.1 = .returned result →
        (s.kernel.tryWait parent target).result = result.map some ∧
          (s.wait parent target).1.kernel = (s.kernel.tryWait parent target).kernel := by
  obtain ⟨hresult, hkernel⟩ := s.kernel.wait_tryWait parent target
  rw [wait]
  dsimp only
  cases hr : (s.kernel.wait parent target).result with
  | error fault =>
    have htry : (s.kernel.tryWait parent target).result = .error fault := by
      rw [← hresult, hr]
      rfl
    rw [htry] at hkernel ⊢
    refine ⟨by simp, fun result hreturned => ?_⟩
    obtain rfl := Entered.returned.inj hreturned
    exact ⟨rfl, hkernel (by simp)⟩
  | ok waiting =>
    cases waiting with
    | collected p code =>
      have htry : (s.kernel.tryWait parent target).result = .ok (some (p, code)) := by
        rw [← hresult, hr]
        rfl
      rw [htry] at hkernel ⊢
      refine ⟨by simp, fun result hreturned => ?_⟩
      obtain rfl := Entered.returned.inj hreturned
      exact ⟨rfl, hkernel (by simp)⟩
    | asleep w =>
      have htry : (s.kernel.tryWait parent target).result = .ok none := by
        rw [← hresult, hr]
        rfl
      rw [htry]
      refine ⟨by simp, fun result hreturned => ?_⟩
      cases hreturned

/-- A wait blocks exactly if a wait that does not block finds nothing yet, and otherwise returns what
that does and leaves the same kernel behind. A child is handed out exactly if the parent is alive and
has not been killed, and it is the one in the lowest slot among its children that are waited for,
have ended and keep no caller. For such a parent a collection by name goes through, is refused for the
child's status, or is refused for want of such a child, exactly if a wait for that child is given it,
is given nothing yet, or is refused for want of children, and the kernel after it is the same. -/
theorem collection_of_reachable (h : Reachable config s) (parent : Pid) (target : Target) :
    ((∃ id, (s.wait parent target).2.1 = .blocked id) ↔
        (s.kernel.tryWait parent target).result = .ok none) ∧
      (∀ result, (s.wait parent target).2.1 = .returned result →
        (s.kernel.tryWait parent target).result = result.map some ∧
          (s.wait parent target).1.kernel = (s.kernel.tryWait parent target).kernel) ∧
      (∀ p code, (s.kernel.tryWait parent target).result = .ok (some (p, code)) ↔
        s.kernel.table.Attends parent ∧ ∃ i, (s.kernel.table.slotAt i).Due parent target p ∧
          (s.kernel.table.slotAt i).exitCode = some code ∧
          ∀ j < i, ∀ q, ¬(s.kernel.table.slotAt j).Due parent target q) ∧
      (s.kernel.table.Attends parent → ∀ child,
        (∀ code, (s.kernel.reap parent child).result = .ok code ↔
          (s.kernel.tryWait parent (.only child)).result = .ok (some (child, code))) ∧
        ((∃ p status, (s.kernel.reap parent child).result =
            .error (.refused (.badStatus p status))) ↔
          (s.kernel.tryWait parent (.only child)).result = .ok none) ∧
        ((s.kernel.reap parent child).result = .error (.refused .noChildren) ∨
            (s.kernel.reap parent child).result = .error (.refused (.noProcess child)) ↔
          (s.kernel.tryWait parent (.only child)).result = .error (.refused .noChildren)) ∧
        (s.kernel.reap parent child).kernel =
          (s.kernel.tryWait parent (.only child)).kernel) := by
  have hs : s.scene.Sound := h.sound
  obtain ⟨hblocked, hreturned⟩ := s.wait_cases parent target
  refine ⟨hblocked, hreturned, fun p code => ?_, fun hp child => Kernel.reap_tryWait hs hp child⟩
  refine (Kernel.tryWait_found_iff hs).trans (and_congr_right fun _ => exists_congr fun i => ?_)
  exact hs.table.find_eq_found_iff_due

/-- Two children have ended, but on behalf of the first of them a caller is still blocked. -/
def detention : List Act :=
  [.serve (.create ⟨9⟩ []), .serve (.transition ⟨0⟩ .running), .serve (.create ⟨0⟩ []),
    .serve (.transition ⟨1⟩ .running), .serve (.create ⟨0⟩ []), .serve (.transition ⟨2⟩ .running),
    .serve (.create ⟨1⟩ []), .wait ⟨1⟩ .any, .serve (.exit ⟨1⟩ 4), .serve (.exit ⟨2⟩ 5)]

theorem collection_of_detention :
    ∃ s, run ⟨5, ⟨9⟩⟩ detention = .ok s ∧ s.kernel.table.Attends ⟨0⟩ ∧
      (∃ i, (s.kernel.table.slotAt i).Due ⟨0⟩ .any ⟨2⟩) ∧
      (s.wait ⟨0⟩ .any).1.kernel = (s.kernel.tryWait ⟨0⟩ .any).kernel ∧
      (∃ id, (s.wait ⟨0⟩ (.only ⟨1⟩)).2.1 = .blocked id) ∧
      (s.kernel.reap ⟨0⟩ ⟨2⟩).result = .ok 5 ∧
      (∃ p status, (s.kernel.reap ⟨0⟩ ⟨1⟩).result = .error (.refused (.badStatus p status))) ∧
      (s.kernel.tryWait ⟨0⟩ (.only ⟨3⟩)).result = .error (.refused .noChildren) := by
  have hrun : run ⟨5, ⟨9⟩⟩ detention = .ok _ := rfl
  obtain ⟨-, hreturned, hfound, -⟩ := collection_of_reachable (.run hrun) ⟨0⟩ .any
  obtain ⟨hattends, i, hdue, -⟩ := (hfound ⟨2⟩ 5).mp rfl
  obtain ⟨hblocked, -, -, hreap⟩ := collection_of_reachable (.run hrun) ⟨0⟩ (.only ⟨1⟩)
  obtain ⟨hcode, -, -, -⟩ := hreap hattends ⟨2⟩
  obtain ⟨-, hstatus, -, -⟩ := hreap hattends ⟨1⟩
  obtain ⟨-, -, hnone, -⟩ := hreap hattends ⟨3⟩
  exact ⟨_, hrun, hattends, ⟨i, hdue⟩, (hreturned (.ok (⟨2⟩, 5)) rfl).2, hblocked.mpr rfl,
    (hcode 5).mpr rfl, hstatus.mpr rfl, hnone.mp (.inl rfl)⟩

end Session

end Lifecycle
