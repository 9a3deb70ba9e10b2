import Lifecycle.Proofs.Scenario.Stress
import Lifecycle.Random.ChaCha
/-!
# Random operations among earlier processes

Processes that ran before the random operations began take part in them, and end and are collected
like those that are created on the way. So nobody is ever left but the adopter. But the verdict
compares how many were collected with how many were created, and those from before were collected
without having been counted: wherever there were any, they are reported as lost, and their number as
none.
-/

namespace Lifecycle

namespace Scenario

open Stress

/-- Random operations on a table in which everybody runs in an address space and nobody waits: only
the adopter is left in the end, whatever the dice show. If there was nobody else before the scenario
succeeds. If there was, it fails and reports the loss of no process. -/
theorem stress_of_reachable {γ : Type} (dice : Dice γ) (rounds : Nat) (seed : UInt64)
    (journal : Journal) {config : Config} {s : Session} (h : Session.Reachable config s)
    (hquiet : s.sleepers = [])
    (hruns : ∀ i, (s.kernel.table.slotAt i).inUse = true →
      (s.kernel.table.slotAt i).status = .running ∧
        (s.kernel.table.slotAt i).space.isSome = true) :
    let yielded := stress dice rounds seed s.kernel journal
    (∀ i p, (yielded.kernel.table.slotAt i).holds p = true ↔ i = 0 ∧ p = config.adopter) ∧
    (s.kernel.table.liveCount = 1 → ∃ r, yielded.report = .ok r ∧ r.reaped = r.created) ∧
    (1 < s.kernel.table.liveCount → yielded.report = .error (.lost 0)) := by
  have hsound : Scene.Sound ⟨s.kernel, 0, []⟩ := by
    have hscene := h.sound
    rw [Session.scene, hquiet] at hscene
    exact hscene
  have hbusy : s.kernel.Busy := ⟨hsound, fun i hu _ => hruns i hu⟩
  have hzombies : s.kernel.table.zombies = 0 := by
    rw [Table.zombies, List.countP_eq_zero]
    intro slot hslot hz
    obtain ⟨i, -, rfl⟩ := Table.exists_slotAt hslot
    have hstatus := (hruns i (Slot.inUse_of_zombie hz)).1
    rw [Slot.isZombie_iff.mp hz] at hstatus
    cases hstatus
  have hpos := hsound.table.liveCount_pos
  change 0 < s.kernel.table.liveCount at hpos
  have hbooks : Books config (s.kernel.table.liveCount - 1) 0 s.kernel ⟨0, 0, 0, 0, 0, 0⟩ := by
    refine ⟨hbusy, h.fixed.1, h.fixed.2, ?_, ?_, Nat.zero_le _, Nat.le_refl _, Nat.zero_le _⟩
    · show 0 + _ + 1 = 0 + _
      omega
    · rw [hzombies]
  obtain ⟨r, b', ⟨halone, tally, hend, hr⟩, hresult⟩ :=
    (play_ends (b := ⟨s.kernel, journal, ⟨dice.start seed, ⟨0, 0, 0, 0, 0, 0⟩⟩⟩) hbooks dice
      rounds).report
  have hlive := hend.busy.table.liveCount_eq_one halone
  have hbalance := hend.live
  intro yielded
  have hyielded : yielded = ⟨r, b'.kernel, b'.journal⟩ := hresult
  rw [hyielded]
  refine ⟨fun i p => ?_, fun hone => ⟨tally, ?_⟩, fun hmore => ?_⟩
  · rw [← hend.adopter]
    exact hend.busy.table.holds_iff_of_alone halone
  · have hreaped : tally.reaped = tally.created := by omega
    exact ⟨hr.trans (if_pos hreaped), hreaped⟩
  · have hreaped : tally.reaped ≠ tally.created := by omega
    have hnone : tally.created - tally.reaped = 0 := by omega
    rw [if_neg hreaped, hnone] at hr
    exact hr

/-- A small table that has just been set up. -/
def Stress.deserted : Kernel := (Kernel.boot ⟨4, ⟨9⟩⟩).toOption.get rfl

/-- The same table with two processes that were made to run before the scenario. -/
def Stress.inhabited : Session :=
  (Session.start deserted).follow [.serve (.create ⟨9⟩ []), .serve (.transition ⟨0⟩ .running),
    .serve (.create ⟨9⟩ []), .serve (.transition ⟨1⟩ .running)]

/-- One of the earlier processes is killed, ends and is collected, and the table fills up again.
Everybody is collected in the end, and nobody is reported as lost. -/
theorem stress_of_inhabited :
    let yielded := stress laidDown 6 0 inhabited.kernel #[]
    Kernel.boot ⟨4, ⟨9⟩⟩ = .ok deserted ∧ crowd deserted 2 = .ok inhabited.kernel ∧
      1 < inhabited.kernel.table.liveCount ∧ yielded.report = .error (.lost 0) ∧
      ∀ i p, (yielded.kernel.table.slotAt i).holds p = true ↔ i = 0 ∧ p = ⟨9⟩ := by
  have hk : Kernel.boot ⟨4, ⟨9⟩⟩ = .ok deserted := rfl
  have hreachable : Session.Reachable ⟨4, ⟨9⟩⟩ inhabited := (Session.Reachable.boot hk).follow _
  have hruns : ∀ i < 4, (inhabited.kernel.table.slotAt i).inUse = true →
      (inhabited.kernel.table.slotAt i).status = .running ∧
        (inhabited.kernel.table.slotAt i).space.isSome = true := by decide +kernel
  have hmore : 1 < inhabited.kernel.table.liveCount := by decide +kernel
  obtain ⟨halone, -, hlost⟩ := stress_of_reachable laidDown 6 0 #[] hreachable rfl
    fun i hu => hruns i (Table.lt_capacity_of_inUse hu) hu
  exact ⟨hk, rfl, hmore, hlost hmore, halone⟩

/-- With one process from before and no rounds at all, the scenario reports a loss although only the
adopter is left. -/
theorem stress_lost_nobody :
    ∃ k, crowd deserted 1 = .ok k ∧
      let yielded := stress ChaCha.dice 0 0 k #[]
      yielded.report = .error (.lost 0) ∧ yielded.kernel.table.liveCount = 1 :=
  ⟨_, rfl, by decide +kernel, by decide +kernel⟩

end Scenario

end Lifecycle
