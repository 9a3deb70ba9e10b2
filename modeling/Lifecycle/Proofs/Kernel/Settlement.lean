import Lifecycle.Proofs.Kernel.Spurious
/-!
# Settlement

When nothing new happens and no sleep ends for no reason, the callers that have been woken run one at
a time, in any order. A caller that runs may wake others, and it may go back to sleep; still every
order comes to an end. Whoever is blocked then has to wait, and whoever has ended by then is held
back by no caller and can be collected at once.
-/

namespace Lifecycle

namespace Kernel

variable {x : Scene}

/-- The zombie in a slot can be collected at once on behalf of its parent, which is alive: by name,
and by a wait unless the parent is marked as killed. -/
def Collectable (k : Kernel) (i : Nat) : Prop :=
  ∃ p q j code, k.table.slotOf? p = some i ∧ (k.table.slotAt i).parent = some q ∧
    k.table.slotOf? q = some j ∧ (k.table.slotAt j).status.isAlive = true ∧
    (k.reap q p).result = .ok code ∧
    ((k.table.slotAt j).killed = false →
      (k.tryWait q (.only p)).result = .ok (some (p, code)) ∧
        (k.wait q (.only p)).result = .ok (.collected p code))

/-- A zombie is held back by the callers on its own behalf and by nothing else. -/
theorem collectable_of_zombie (h : x.Sound) {i : Nat} (hz : (x.table.slotAt i).isZombie = true)
    (hempty : (x.table.slotAt i).waiters = 0) : x.kernel.Collectable i := by
  have hu := Slot.inUse_of_zombie hz
  have hsound := h.table.slots i
  obtain ⟨p, hpid⟩ := hsound.named hu
  obtain ⟨q, hq, j, hj, ha⟩ := h.table.parent_alive i (h.table.ne_zero_of_zombie hz) hu
  obtain ⟨code, hcode⟩ := Option.isSome_iff_exists.mp (hsound.exitCode_iff.trans hz)
  have hp : (x.table.slotAt i).holds p = true := Slot.holds_iff.mpr ⟨hu, hpid⟩
  have halive := h.table.aliveSlot_of_holds hj ha
  have hslot := h.table.slotOf?_of_holds hp
  have hcollect : (x.kernel.collect q i p code).result = .ok code := by
    rw [collect_eq h hp hz]
  refine ⟨p, q, j, code, hslot, hq, h.table.slotOf?_of_holds hj, ha, ?_, fun hk => ?_⟩
  · have hreap : x.kernel.reap q p = x.kernel.collect q i p code := by
      simp only [reap, halive, hslot, hq, Slot.isZombie_iff.mp hz, hcode, hempty, if_true]
    rw [hreap, hcollect]
  · have hmatch : (x.table.slotAt i).matching? q (.only p) = some p :=
      Slot.matching?_eq_some.mpr ⟨Slot.isChildOf_iff.mpr ⟨hu, hq⟩, hpid, by simp [Target.matches]⟩
    have hfind : x.kernel.table.find q (.only p) = .found i p code :=
      h.table.find_only (Slot.remains?_eq_some.mpr ⟨hmatch, hempty, hz, hcode⟩)
    constructor
    · simp [tryWait, halive, hk, hfind, Outcome.map, Except.map, hcollect]
    · simp [wait, look, halive, hk, hfind, Outcome.map, Except.map, hcollect]

end Kernel

namespace Session

variable {config : Config} {s t : Session} {order : List Nat}

/-- Woken callers run one after the other, each told by its index at its turn. -/
inductive Unwinds : Session → List Nat → Session → Prop
  | done {s : Session} : Unwinds s [] s
  | turn {s t : Session} {i : Nat} {sleeper : Sleeper} {order : List Nat}
      (hi : s.sleepers[i]? = some sleeper) (hwoken : s.isWoken sleeper = true)
      (h : Unwinds (s.rouse i).1 order t) : Unwinds s (i :: order) t

/-- No caller that is blocked has been woken. -/
def Settled (s : Session) : Prop := ∀ sleeper ∈ s.sleepers, s.isWoken sleeper = false

instance (s : Session) : Decidable s.Settled :=
  inferInstanceAs (Decidable (∀ sleeper ∈ s.sleepers, s.isWoken sleeper = false))

/-- Every turn uses up some of the unrest. -/
theorem Unwinds.length_le (h : s.Unwinds order t) : order.length + t.unrest ≤ s.unrest := by
  induction h with
  | done => simp
  | turn hi hwoken _ ih =>
    have hlt := unrest_rouse_lt hi hwoken
    rw [List.length_cons]
    omega

theorem Unwinds.reachable (h : s.Unwinds order t) (hs : Reachable config s) :
    Reachable config t := by
  induction h with
  | done => exact hs
  | @turn s _ i _ _ _ _ _ ih => exact ih (hs.act (.rouse i))

theorem settled_of_firstWoken? (h : s.firstWoken? = none) : s.Settled := by
  intro sleeper hm
  simpa using List.findIdx?_eq_none_iff.mp h sleeper hm

/-- Lowest number first is one of the orders. -/
theorem unwinds_settle (s : Session) : (∃ order, s.Unwinds order s.settle.1) ∧ s.settle.1.Settled := by
  induction s using settle.induct with
  | case1 s hnone =>
    have heq : s.settle.1 = s := by
      rw [settle]
      split <;> simp_all
    rw [heq]
    exact ⟨⟨[], .done⟩, settled_of_firstWoken? hnone⟩
  | case2 s i hfirst roused ih =>
    have heq : s.settle.1 = roused.1.settle.1 := by
      rw [settle]
      split
      · simp_all
      · rename_i hfirst'
        obtain rfl := Option.some.inj (hfirst.symm.trans hfirst')
        rfl
    obtain ⟨⟨order, hrun⟩, hsettled⟩ := ih
    obtain ⟨sleeper, hi, hwoken⟩ := firstWoken?_eq_some hfirst
    rw [heq]
    exact ⟨⟨i :: order, .turn hi hwoken hrun⟩, hsettled⟩

/-- In a settled session nobody is blocked on behalf of a process that has ended. -/
theorem Settled.free_of_zombie (hsettled : s.Settled) (hp : s.scene.Prompt) {i : Nat}
    (hz : (s.kernel.table.slotAt i).isZombie = true) (hfew : s.kernel.channels.count i < 2 ^ 64) :
    ∀ sleeper ∈ s.sleepers, sleeper.waiter.caller.slot ≠ i := by
  intro sleeper hm hslot
  subst hslot
  have hawaits := awaits_of_asleep hp hm hfew (hsettled sleeper hm)
  exact Table.ne_of_zombie hz hawaits.alive rfl

theorem waiters_of_free (h : s.scene.Sound) {i : Nat}
    (hfree : ∀ sleeper ∈ s.sleepers, sleeper.waiter.caller.slot ≠ i) :
    (s.kernel.table.slotAt i).waiters = 0 := by
  have hcount : (s.kernel.table.slotAt i).waiters = _ := h.waiters i
  rw [hcount, Multiset.countP_eq_zero]
  intro w hw
  obtain ⟨sleeper, hm, rfl⟩ := mem_blocked.mp hw
  exact hfree sleeper hm

/-- Woken callers that run in some order take a bounded number of turns, and each turn ends in a
return or in a sleep with a current ticket. They can run on until the session is settled. Whoever is
blocked then has to wait: its process lives and is not marked, and has no child to collect yet. On
behalf of a process that has ended nobody is blocked, and it can be collected at once. As for every
ticket, this takes it that the channel has been woken fewer than 2^64 times. -/
theorem settlement_of_reachable (h : Reachable config s) (hrun : s.Unwinds order t) :
    order.length ≤ s.unrest ∧
      (∀ i sleeper, t.sleepers[i]? = some sleeper → t.isWoken sleeper = true →
        (∃ result, (t.rouse i).2.returned = [(sleeper.id, result)] ∧
            (t.rouse i).1.sleepers = t.sleepers.eraseIdx i) ∨
          ∃ ticket, (t.rouse i).1.sleepers =
              t.sleepers.set i ⟨sleeper.id, sleeper.waiter.caller, ticket⟩ ∧
            (t.rouse i).1.isWoken ⟨sleeper.id, sleeper.waiter.caller, ticket⟩ = false) ∧
      (∃ rest u, t.Unwinds rest u ∧ u.Settled) ∧
      (t.Settled →
        (∀ sleeper ∈ t.sleepers, t.kernel.channels.count sleeper.waiter.caller.slot < 2 ^ 64 →
          t.kernel.table.Awaits sleeper.waiter.caller) ∧
        ∀ i, (t.kernel.table.slotAt i).isZombie = true → t.kernel.channels.count i < 2 ^ 64 →
          (∀ sleeper ∈ t.sleepers, sleeper.waiter.caller.slot ≠ i) ∧
            (t.kernel.table.slotAt i).waiters = 0 ∧ t.kernel.Collectable i) := by
  have ht := hrun.reachable h
  refine ⟨?_, fun i sleeper hi _ => ?_, ?_, fun hsettled => ⟨?_, fun i hz hfew => ?_⟩⟩
  · have hle := hrun.length_le
    omega
  · rcases rouse_cases hi with hreturned | ⟨-, hch, hsleepers⟩
    · exact .inl hreturned
    · refine .inr ⟨_, hsleepers, ?_⟩
      rw [isWoken_congr hch]
      exact t.isWoken_current _ _
  · obtain ⟨⟨rest, hrest⟩, hsettled⟩ := t.unwinds_settle
    exact ⟨rest, _, hrest, hsettled⟩
  · intro sleeper hm hfew
    exact awaits_of_asleep ht.prompt hm hfew (hsettled sleeper hm)
  · have hfree := hsettled.free_of_zombie ht.prompt hz hfew
    have hempty := waiters_of_free ht.sound hfree
    exact ⟨hfree, hempty, Kernel.collectable_of_zombie ht.sound hz hempty⟩

/-- A process waits for one child while another one ends. It is then marked as killed. -/
def marking : List Act :=
  [.serve (.create ⟨0⟩ []), .serve (.transition ⟨1⟩ .running), .serve (.create ⟨1⟩ []),
    .serve (.create ⟨1⟩ []), .serve (.transition ⟨3⟩ .running), .wait ⟨1⟩ (.only ⟨2⟩),
    .serve (.exit ⟨3⟩ 7), .serve (.kill ⟨1⟩)]

/-- What the bound and the mark are about. When a channel has been woken so often that its count is
back where it was, a caller that has been woken looks as if it had not: it stays blocked although its
child can be collected. And a parent that is marked collects its child by name only, not by a wait. -/
theorem settlement_limited :
    (∃ s sleeper, Reachable ⟨3, ⟨0⟩⟩ s ∧ s.Unwinds [] s ∧ s.Settled ∧ sleeper ∈ s.sleepers ∧
      s.kernel.table.find sleeper.waiter.caller.parent sleeper.waiter.caller.target =
        .found 1 ⟨1⟩ 5) ∧
    ∃ s t, run ⟨4, ⟨0⟩⟩ marking = .ok s ∧ s.Unwinds [0] t ∧ t.Settled ∧ t.sleepers = [] ∧
      (t.kernel.table.slotAt 3).isZombie = true ∧ (t.kernel.table.slotAt 3).parent = some ⟨1⟩ ∧
      (t.kernel.tryWait ⟨1⟩ (.only ⟨3⟩)).result = .error (.refused .killed) ∧
      (t.kernel.reap ⟨1⟩ ⟨3⟩).result = .ok 7 := by
  constructor
  · have hreach := (reachable_pestered (2 ^ 64 - 2)).act (.serve (.exit ⟨1⟩ 5))
    exact ⟨_, _, hreach, .done, by decide, .head _, by decide⟩
  · exact ⟨_, _, rfl, .turn rfl rfl .done, by decide, rfl, rfl, rfl, rfl, rfl⟩

/-- A process ends while it is waited for and while a caller is blocked on its behalf. Another child
of the adopter has ended before. -/
def unsettling : List Act :=
  [.serve (.create ⟨7⟩ []), .serve (.transition ⟨0⟩ .running), .serve (.create ⟨0⟩ []),
    .serve (.create ⟨7⟩ []), .serve (.transition ⟨2⟩ .running), .wait ⟨0⟩ .any,
    .wait ⟨7⟩ (.only ⟨0⟩), .serve (.exit ⟨2⟩ 6), .serve (.exit ⟨0⟩ 5), .wait ⟨7⟩ (.only ⟨1⟩)]

/-- The adopter's caller looks too early and sleeps again. The caller that leaves the zombie wakes
it once more, and another one with it. -/
theorem settlement_of_unsettling :
    ∃ s t, run ⟨4, ⟨7⟩⟩ unsettling = .ok s ∧ s.sleepers.countP s.isWoken = 2 ∧
      s.Unwinds [1, 0, 0, 0] t ∧ t.Settled ∧
      t.sleepers.map (·.waiter.caller) = [⟨0, ⟨7⟩, .only ⟨1⟩⟩] ∧
      t.kernel.table.Awaits ⟨0, ⟨7⟩, .only ⟨1⟩⟩ ∧ t.kernel.Collectable 3 := by
  have hrun : run ⟨4, ⟨7⟩⟩ unsettling = .ok _ := rfl
  have hturns := fun t (h : Unwinds _ [1, 0, 0, 0] t) =>
    And.intro h (settlement_of_reachable (.run hrun) h)
  obtain ⟨hunwinds, -, -, -, hrest⟩ :=
    hturns _ (.turn rfl rfl (.turn rfl rfl (.turn rfl rfl (.turn rfl rfl .done))))
  obtain ⟨hawaits, hzombies⟩ := hrest (by decide)
  exact ⟨_, _, hrun, by decide, hunwinds, by decide, by decide,
    hawaits ⟨2, ⟨0, ⟨7⟩, .only ⟨1⟩⟩, 3⟩ (by decide) (by decide),
    (hzombies 3 rfl (by decide)).2.2⟩

end Session

end Lifecycle
