import Lifecycle.Proofs.Scenario.Rounds
import Lifecycle.Proofs.Threads.Effects
/-!
# Random operations lose nothing

When the rounds are over every process that runs can end, and it is then a child of the adopter,
who collects one process after the other until it is alone. So the scenario succeeds on every table
that only had the adopter in it, and everybody who was created has ended and been collected.
-/

namespace Lifecycle

namespace Table

variable {t t' : Table} {i : Nat}

/-- Whatever was ripe stays so when a slot is given back. -/
theorem Touches.ripe (h : t.Touches i t') (hripe : t.Ripe) (hself : t'.slotAt i = .blank) :
    t'.Ripe := by
  intro j hj hu
  by_cases hij : i = j
  · rw [← hij, hself] at hu
    cases hu
  · rw [h.rest j hij] at hu ⊢
    exact hripe j hj hu

theorem Sound.liveCount_pos (h : t.Sound) : 0 < t.liveCount :=
  List.countP_pos_iff.mpr
    ⟨_, slotAt_mem h.capacity_pos, (Slot.holds_iff.mp h.adopter_holds).1⟩

/-- Where the adopter is alone, no slot is of a kind that neither its slot nor a free one is of. -/
theorem Sound.countP_of_alone (h : t.Sound) (ha : t.Alone) {f : Slot → Bool}
    (hadopter : f (t.slotAt 0) = false) (hblank : f .blank = false) : t.slots.countP f = 0 := by
  rw [List.countP_eq_zero]
  intro s hs
  obtain ⟨i, -, rfl⟩ := exists_slotAt hs
  by_cases hi : i = 0
  · rw [hi, hadopter]
    decide
  · rw [(h.slots i).blank (ha i hi), hblank]
    decide

theorem Sound.zombies_of_alone (h : t.Sound) (ha : t.Alone) : t.zombies = 0 :=
  h.countP_of_alone ha (Slot.not_zombie_of_alive h.adopter.alive) rfl

theorem Sound.marked_of_alone (h : t.Sound) (ha : t.Alone) : t.marked = 0 := by
  refine h.countP_of_alone ha ?_ rfl
  rw [Slot.isMarked, h.adopter.unkilled, Bool.false_and]

end Table

namespace Kernel

namespace Busy

variable {k : Kernel} {p : Pid}

/-- Once only the adopter runs, all others have ended. -/
theorem ripe (h : k.Busy) (hnone : ∀ p, p ≠ k.table.adopter → ¬k.table.Runs p) :
    k.table.Ripe := by
  intro i hi hu
  obtain ⟨p, hp⟩ := (h.table.slots i).named hu
  have hholds : (k.table.slotAt i).holds p = true := Slot.holds_iff.mpr ⟨hu, hp⟩
  have hne : p ≠ k.table.adopter := fun heq => hi ((h.table.eq_zero_iff hholds).mpr heq)
  by_contra hz
  rw [Bool.not_eq_true] at hz
  exact hnone p hne ⟨i, hholds, (h.works i hu hz).1⟩

theorem adopter_attends (h : k.Busy) : k.table.Attends k.table.adopter :=
  ⟨0, h.table.adopter_holds, h.table.adopter.alive, h.table.adopter.unkilled⟩

/-- While somebody has ended, the adopter finds a child to collect. -/
theorem find_ripe (h : k.Busy) (hripe : k.table.Ripe) (ha : ¬k.table.Alone) :
    ∃ i q code, k.table.find k.table.adopter .any = .found i q code := by
  obtain ⟨i, hi⟩ := not_forall.mp ha
  obtain ⟨hi0, hu⟩ := Classical.not_imp.mp hi
  rw [Bool.not_eq_false] at hu
  obtain ⟨q, code, hremains⟩ := exists_remains h.sound hripe hi0 hu
  cases hf : k.table.find k.table.adopter .any with
  | found j q code => exact ⟨j, q, code, rfl⟩
  | pending =>
    have hnone := (Table.find_eq_pending.mp hf).2 i
    rw [hremains] at hnone
    cases hnone
  | noChildren =>
    have hnone := Table.find_eq_noChildren.mp hf i
    rw [(Slot.remains?_eq_some.mp hremains).1] at hnone
    cases hnone

/-- While somebody has ended, the adopter collects somebody and one fewer is left. -/
theorem harvest (h : k.Busy) (hripe : k.table.Ripe) (ha : ¬k.table.Alone) :
    ∃ q code j, (k.tryWait k.table.adopter .any).result = .ok (some (q, code)) ∧
      (k.tryWait k.table.adopter .any).kernel.Busy ∧
      k.table.Touches j (k.tryWait k.table.adopter .any).kernel.table ∧
      (k.table.slotAt j).isZombie = true ∧
      (k.tryWait k.table.adopter .any).kernel.table.slotAt j = .blank ∧
      (k.tryWait k.table.adopter .any).kernel.table.Ripe ∧
      (k.tryWait k.table.adopter .any).kernel.table.liveCount + 1 = k.table.liveCount := by
  obtain ⟨j, q, code, hf⟩ := h.find_ripe hripe ha
  obtain ⟨hok, hbusy, htouches, hz, hself⟩ := h.collect h.adopter_attends hf
  have hlive := htouches.liveCount
  rw [hself, Slot.inUse_of_zombie hz, Slot.inUse_blank] at hlive
  exact ⟨q, code, j, hok, hbusy, htouches, hz, hself, htouches.ripe hripe hself, hlive⟩

end Busy

end Kernel

namespace Scenario

/-- Everybody who runs ends, but for the adopter, if each of them does. -/
theorem Play.yields_endAll {σ : Type} {f : Pid → Play σ PUnit} {a : Pid} (inv : Bench σ → Prop)
    (hbusy : ∀ b, inv b → b.kernel.Busy ∧ b.kernel.table.adopter = a)
    (hstep : ∀ b p, inv b → p ≠ a → b.kernel.table.Runs p → Yields (f p) b fun _ b' =>
      inv b' ∧ ∀ q, b'.kernel.table.Runs q ↔ b.kernel.table.Runs q ∧ q ≠ p)
    {b : Bench σ} (h : inv b) {l : List Pid} (hnodup : l.Nodup)
    (hl : ∀ p, p ∈ l ↔ p ≠ a ∧ b.kernel.table.Runs p) :
    Yields (l.forM f) b fun _ b' => inv b' ∧ b'.kernel.table.Ripe := by
  -- those who are left to end are just those who still run
  refine (yields_forM (fun rest b => inv b ∧ rest.Nodup ∧
    ∀ p, p ∈ rest ↔ p ≠ a ∧ b.kernel.table.Runs p) ?_ ⟨h, hnodup, hl⟩).mono ?_
  · intro p rest b hinv
    obtain ⟨hb, hnodup, hrest⟩ := hinv
    obtain ⟨hne, hp⟩ := (hrest p).mp (List.mem_cons_self ..)
    refine (hstep b p hb hne hp).mono fun _ b' hb' => ?_
    obtain ⟨hkept, hruns⟩ := hb'
    obtain ⟨hp_rest, hnodup_rest⟩ := List.nodup_cons.mp hnodup
    refine ⟨hkept, hnodup_rest, fun q => ?_⟩
    rw [hruns, ← and_assoc, ← hrest, List.mem_cons]
    constructor
    · intro hq
      exact ⟨.inr hq, fun heq => hp_rest (heq ▸ hq)⟩
    · intro hq
      exact hq.1.resolve_left hq.2
  · intro _ b' hb'
    obtain ⟨hkept, -, hrest⟩ := hb'
    obtain ⟨hbusy', hadopter⟩ := hbusy b' hkept
    refine ⟨hkept, hbusy'.ripe fun p hne hruns => ?_⟩
    rw [hadopter] at hne
    exact List.not_mem_nil ((hrest p).mpr ⟨hne, hruns⟩)

namespace Stress

open Play

variable {γ : Type} {config : Config} {old n : Nat} {b : Bench (Own γ)}

/-- Everybody who runs ends, but for the adopter. -/
theorem finishAll_yields (h : Kept config old n b) :
    Yields (((running b.kernel.table).filter (· ≠ b.kernel.table.adopter)).forM
      fun p => finish p 0) b fun _ b' => Kept config old n b' ∧ b'.kernel.table.Ripe := by
  refine yields_endAll (Kept config old n) (fun b hb => ⟨hb.busy, hb.adopter⟩)
    (fun b p hb hne hp => ?_) h (h.busy.table.nodup_running.filter _) fun p => ?_
  · obtain ⟨i, hp, hr⟩ := hp
    rw [← hb.adopter] at hne
    exact finish_yields hb hp hr hne 0
  · rw [List.mem_filter, Table.mem_running, h.adopter, and_comm]
    simp

/-- The adopter collects until it is alone. -/
theorem collectRest_yields (h : Kept config old n b) (hripe : b.kernel.table.Ripe) {tries : Nat}
    (ht : b.kernel.table.liveCount ≤ tries) :
    Yields (collectRest config.adopter tries) b
      fun _ b' => Kept config old n b' ∧ b'.kernel.table.Alone := by
  induction tries generalizing b with
  | zero => exact absurd h.busy.table.liveCount_pos ht.not_gt
  | succ tries ih =>
    rw [collectRest, yields_bind, yields_attempt]
    by_cases ha : b.kernel.table.Alone
    · have hnone := Kernel.find_adopter_noChildren h.busy.sound ha
      have htry : b.kernel.tryWait b.kernel.table.adopter .any = b.kernel.refuse .noChildren :=
        Kernel.tryWait_adopter_noChildren h.busy.sound hnone
      rw [h.adopter] at htry
      rw [htry]
      exact yields_pure.mpr ⟨h, ha⟩
    · have hharvest := h.busy.harvest hripe ha
      rw [h.adopter] at hharvest
      obtain ⟨q, code, j, hok, hbusy, htouches, hz, hself, hripe', hlive⟩ := hharvest
      rw [hok]
      dsimp only
      rw [yields_bind, yields_count]
      refine ih (h.collected hbusy htouches hz hself) hripe' ?_
      exact Nat.le_of_succ_le_succ (hlive.trans_le ht)

/-- However many there were before, the adopter is alone in the end. The verdict compares how many
were collected with how many were created. -/
theorem play_ends (h : Kept config old 0 b) (dice : Dice γ) (number : Nat) :
    Ends (play dice number) b fun r b' => b'.kernel.table.Alone ∧
      ∃ tally, Books config old number b'.kernel tally ∧ r =
        if tally.reaped = tally.created then .ok tally
        else .error (.lost (tally.created - tally.reaped)) := by
  rw [play]
  refine Yields.ends ((rounds_yields h dice 0 number).mono fun _ b₁ h₁ => ?_)
  rw [Nat.zero_add] at h₁
  refine Yields.ends (yields_table.mpr ?_)
  dsimp only
  refine Yields.ends ((finishAll_yields h₁).mono fun _ b₂ hfinished => ?_)
  obtain ⟨h₂, hripe⟩ := hfinished
  have htries : b₂.kernel.table.liveCount ≤ b₁.kernel.table.capacity := by
    rw [h₁.capacity, ← h₂.capacity]
    exact List.countP_le_length
  rw [h₁.adopter]
  refine Yields.ends ((collectRest_yields h₂ hripe htries).mono fun _ b₃ hcollected => ?_)
  obtain ⟨h₃, halone⟩ := hcollected
  have hlive : b₃.kernel.table.liveCount = 1 := h₃.busy.table.liveCount_eq_one halone
  refine Yields.ends ((yields_verify h₃.busy.audit).mpr ?_)
  refine Yields.ends (yields_get.mpr (Yields.ends (yields_table.mpr ?_)))
  by_cases hreaped : b₃.own.tally.reaped = b₃.own.tally.created
  · have hwhole : ¬(b₃.kernel.table.liveCount ≠ 1 ∨
        b₃.own.tally.reaped ≠ b₃.own.tally.created) := by
      simp [hlive, hreaped]
    rw [if_neg hwhole]
    refine Yields.ends (yields_tell.mpr (ends_pure.mpr ⟨halone, _, h₃, ?_⟩))
    rw [if_pos hreaped]
  · rw [if_pos (.inr hreaped)]
    refine ends_throw.mpr ⟨halone, _, h₃, ?_⟩
    rw [if_neg hreaped]

/-- A scenario that starts on a table with nobody but the adopter succeeds. -/
theorem play_yields (h : Kept config 0 0 b) (dice : Dice γ) (number : Nat) :
    Yields (play dice number) b fun r b' => b'.kernel.table.Alone ∧
      Books config 0 number b'.kernel r := by
  obtain ⟨r, b', hrun, halone, tally, hbooks, hr⟩ := play_ends h dice number
  have hlive : b'.kernel.table.liveCount = 1 := hbooks.busy.table.liveCount_eq_one halone
  have hreaped : tally.reaped = tally.created := by
    have hbalance := hbooks.live
    omega
  rw [if_pos hreaped] at hr
  subst hr
  exact ⟨tally, b', hrun, halone, hbooks⟩

theorem Books.boot {k : Kernel} (hk : Kernel.boot config = .ok k) :
    Books config 0 0 k ⟨0, 0, 0, 0, 0, 0⟩ := by
  obtain ⟨-, hcapacity, hadopter, -, -, hrest⟩ := Table.boot_eq_ok (Kernel.boot_eq_ok hk).1
  have hbusy := Kernel.Busy.boot hk
  have halone : k.table.Alone := by
    intro i hi
    rw [hrest i hi]
    rfl
  refine ⟨hbusy, hcapacity, hadopter, ?_, ?_, Nat.zero_le _, Nat.le_refl _, Nat.zero_le _⟩
  · rw [hbusy.table.liveCount_eq_one halone]
  · rw [hbusy.table.zombies_of_alone halone]

/-- Once the adopter is alone, everybody who was created has ended and been collected. -/
theorem Books.balanced {k : Kernel} {r : StressReport} (h : Books config 0 n k r)
    (ha : k.table.Alone) :
    r.exited = r.created ∧ r.reaped = r.created ∧ r.killed ≤ r.exited := by
  have hlive := h.busy.table.liveCount_eq_one ha
  have hzombies := h.busy.table.zombies_of_alone ha
  have hmarked := h.busy.table.marked_of_alone ha
  have hbalance := h.live
  have hended := h.ended
  have hkilled := h.killed
  omega

end Stress

/-- Random operations succeed on any table that has just been set up, whatever the dice show: no step
is refused but for want of room or of children, and the audit finds nothing after any of the rounds,
nor in the end. Everybody who was created has ended and been collected, and only the adopter is left.
-/
theorem stress_of_boot {γ : Type} (dice : Dice γ) (rounds : Nat) (seed : UInt64) {config : Config}
    (hc : 0 < config.capacity) (journal : Journal) :
    ∃ k, Kernel.boot config = .ok k ∧
      let bench : Bench (Stress.Own γ) := ⟨k, journal, ⟨dice.start seed, ⟨0, 0, 0, 0, 0, 0⟩⟩⟩
      let yielded := stress dice rounds seed k journal
      (∀ n ≤ rounds, ∃ b, (Stress.rounds dice 0 n).run.run bench = (.ok (), b) ∧
        b.kernel.table.audit = none) ∧
      yielded.kernel.table.audit = none ∧
      ∃ r, yielded.report = .ok r ∧
        r.exited = r.created ∧ r.reaped = r.created ∧ r.killed ≤ r.exited ∧
        r.created + r.exhausted ≤ rounds ∧ r.maxLive ≤ config.capacity ∧
        ∀ i p, (yielded.kernel.table.slotAt i).holds p = true ↔ i = 0 ∧ p = config.adopter := by
  obtain ⟨k, hk⟩ := Kernel.exists_boot hc
  refine ⟨k, hk, ?_⟩
  intro bench yielded
  have hboot : Stress.Kept config 0 0 bench := Stress.Books.boot hk
  obtain ⟨r, b', hplayed, hresult⟩ := (Stress.play_yields hboot dice rounds).report
  obtain ⟨halone, hbooks⟩ := hplayed
  obtain ⟨hexited, hreaped, hkilled⟩ := hbooks.balanced halone
  have hyielded : yielded = ⟨.ok r, b'.kernel, b'.journal⟩ := hresult
  rw [hyielded]
  refine ⟨fun n _ => ?_, hbooks.busy.audit, r, rfl, hexited, hreaped, hkilled, hbooks.rounds,
    hbooks.peak, fun i p => ?_⟩
  · obtain ⟨_, b, hrun, hkept⟩ := Stress.rounds_yields hboot dice 0 n
    exact ⟨b, hrun, hkept.busy.audit⟩
  · rw [← hbooks.adopter]
    exact hbooks.busy.table.holds_iff_of_alone halone

/-- Dice that show what has been laid down. -/
def Stress.laidDown : Dice (List Nat) where
  start _ := [0, 0, 1, 1, 9, 1, 0, 0, 6, 0, 0, 0, 0, 0, 0, 0, 0, 1, 1, 5, 0]
  below n throws := (throws.headD 0 % n, throws.tail)
  flip throws := (throws.headD 0 == 1, throws.tail)
  seed throws := (0, throws)

/-- A process is forked, killed, ends and is collected; two are created, and there is no room for a
third. -/
theorem stress_of_throws :
    ∃ k, Kernel.boot ⟨3, ⟨9⟩⟩ = .ok k ∧
      let yielded := stress Stress.laidDown 8 0 k #[]
      yielded.report = .ok ⟨3, 3, 1, 3, 1, 3⟩ ∧
        ∀ i p, (yielded.kernel.table.slotAt i).holds p = true ↔ i = 0 ∧ p = ⟨9⟩ := by
  have hc : 0 < (⟨3, ⟨9⟩⟩ : Config).capacity := by decide
  obtain ⟨k, hk, -, -, r, hr, -, -, -, -, -, halone⟩ := stress_of_boot Stress.laidDown 8 0 hc #[]
  obtain rfl := Except.ok.inj hk
  exact ⟨_, hk, by decide +kernel, halone⟩

end Scenario

end Lifecycle
