import Lifecycle.Proofs.Kernel.Integrity
import Lifecycle.Proofs.Table.Endings
/-!
# Exits commute

A single exit changes the table as the end of one process does. So several exits without any other
step in between amount to the end of all those processes together, and that has no order. Whoever
may end at first may still end after others did.
-/

namespace Lifecycle

namespace Kernel

variable {x : Scene}

/-! ## One exit -/

theorem slotAt_wakes (debts : List Nat) (k : Kernel) (m : Nat) :
    (debts.foldl wake k).table.slotAt m =
      if m ∈ debts ∧ (k.table.slotAt m).waiters ≠ 0 then (k.table.slotAt m).rouse
      else k.table.slotAt m := by
  induction debts generalizing k with
  | nil => simp
  | cons i rest ih =>
    have hslot : (k.wake i).table.slotAt m =
        if i = m ∧ (k.table.slotAt m).waiters ≠ 0 then (k.table.slotAt m).rouse
        else k.table.slotAt m := by
      by_cases h : (k.table.slotAt i).waiters = 0
      · rw [wake_of_none h, if_neg]
        intro hx
        obtain ⟨rfl, hne⟩ := hx
        exact hne h
      · rw [wake_of_waiters h]
        dsimp only
        rw [Table.slotAt_modifySlot (Table.lt_capacity_of_waiters h)]
        by_cases him : i = m
        · subst him
          rw [if_pos rfl, if_pos ⟨rfl, h⟩]
        · rw [if_neg him, if_neg fun hx => him hx.1]
    rw [List.foldl_cons, ih, hslot]
    by_cases h0 : (k.table.slotAt m).waiters = 0
    · simp [h0]
    · by_cases him : i = m
      · subst him
        simp [h0]
      · simp [h0, him, Ne.symm him]

theorem continues_wakes (debts : List Nat) (k : Kernel) :
    k.table.Continues (debts.foldl wake k).table := by
  induction debts generalizing k with
  | nil => exact .refl _
  | cons i rest ih => exact (k.continues_wake i).trans (ih (k.wake i))

theorem slotAt_fallen (h : x.Sound) {i : Nat} {p : Pid} {code : ExitCode}
    (hp : (x.table.slotAt i).holds p = true) (m : Nat) :
    (x.kernel.fallen i p code).table.slotAt m =
      (x.table.slotAt m).fell x.table.adopter (.one p code) := by
  show (x.table.fall i p code).slotAt m = _
  by_cases him : i = m
  · subst him
    have hends : (x.table.slotAt i).endsWith? (.one p code) = some code :=
      Slot.endsWith?_eq_some.mpr ⟨p, hp, if_pos rfl⟩
    rw [h.ranked.slotAt_fall_self hp, Slot.fell_of_some hends, Slot.heir?_one, if_neg]
    exact fun hparent => h.ranked.parent_ne hp hparent rfl
  · have hends : (x.table.slotAt m).endsWith? (.one p code) = none := by
      rw [← Option.not_isSome_iff_eq_none, Slot.isSome_endsWith?_one]
      exact fun hm => him (h.table.holds_unique i m p hp hm)
    rw [Table.slotAt_fall_other (Table.lt_capacity_of_holds hp) him, Slot.fell_of_none hends,
      Slot.heir?_one]
    by_cases hparent : (x.table.slotAt m).parent = some p
    · rw [if_pos hparent, if_pos (Slot.isChildOf_iff.mpr ⟨h.table.inUse_of_parent hparent, hparent⟩)]
    · rw [if_neg hparent, if_neg fun hchild => hparent (Slot.isChildOf_iff.mp hchild).2]

/-- The end of one process hands its own zombie to its parent, and its zombie children to the
adopter. -/
theorem hands_one_iff (h : x.Sound) {i n : Nat} {p q r : Pid} {code : ExitCode}
    (hp : (x.table.slotAt i).holds p = true) (hq : (x.table.slotAt i).parent = some q) :
    (x.table.slotAt n).hands x.table.adopter (.one p code) r = true ↔
      n = i ∧ r = q ∨ r = x.table.adopter ∧ (x.table.slotAt n).isChildOf p = true ∧
        (x.table.slotAt n).isZombie = true := by
  rw [Slot.hands_iff, Slot.heir?_one, Slot.isSome_endsWith?_one]
  constructor
  · intro hx
    obtain ⟨hu, hheir, hends⟩ := hx
    by_cases hparent : (x.table.slotAt n).parent = some p
    · rw [if_pos hparent] at hheir
      refine .inr ⟨(Option.some.inj hheir).symm, Slot.isChildOf_iff.mpr ⟨hu, hparent⟩, ?_⟩
      exact (hends.resolve_left fun hn => h.ranked.parent_ne hn hparent rfl).1
    · rw [if_neg hparent] at hheir
      rcases hends with hn | ⟨-, hsome⟩
      · obtain rfl := h.table.holds_unique n i p hn hp
        rw [hq] at hheir
        exact .inl ⟨rfl, (Option.some.inj hheir).symm⟩
      · rw [hheir, Option.bind_some, Codes.one] at hsome
        split at hsome
        · rename_i hrp
          rw [hheir, hrp] at hparent
          exact absurd rfl hparent
        · simp at hsome
  · intro hx
    rcases hx with ⟨rfl, rfl⟩ | ⟨rfl, hchild, hz⟩
    · have hne : ¬(x.table.slotAt n).parent = some p :=
        fun hparent => h.ranked.parent_ne hp hparent rfl
      exact ⟨(Slot.holds_iff.mp hp).1, by rw [if_neg hne, hq], .inl hp⟩
    · obtain ⟨hu, hparent⟩ := Slot.isChildOf_iff.mp hchild
      exact ⟨hu, by rw [if_pos hparent], .inr ⟨hz, by simp [hparent, Codes.one]⟩⟩

/-- The end of one process wakes the callers of its parent, and those of the adopter if it is handed
a zombie. -/
theorem rouses_one_iff (h : x.Sound) {i j m : Nat} {p q : Pid} {code : ExitCode}
    (hp : (x.table.slotAt i).holds p = true) (hq : (x.table.slotAt i).parent = some q)
    (hj : (x.table.slotAt j).holds q = true) :
    x.table.rouses (.one p code) (x.table.slotAt m) = true ↔
      (m = j ∨ m = 0 ∧ ∃ n, (x.table.slotAt n).isChildOf p = true ∧
        (x.table.slotAt n).isZombie = true) ∧ (x.table.slotAt m).waiters ≠ 0 := by
  rw [Table.rouses_iff, and_comm]
  refine and_congr_left fun h0 => ?_
  simp only [hands_one_iff h hp hq]
  constructor
  · intro hx
    obtain ⟨r, hr, n, hn⟩ := hx
    have hm : (x.table.slotAt m).holds r = true :=
      Slot.holds_iff.mpr ⟨h.table.inUse_of_waiters h0, hr⟩
    rcases hn with ⟨-, rfl⟩ | ⟨rfl, hzombie⟩
    · exact .inl (h.table.holds_unique m j r hm hj)
    · exact .inr ⟨(h.table.eq_zero_iff hm).mpr rfl, n, hzombie⟩
  · intro hx
    rcases hx with rfl | ⟨rfl, n, hzombie⟩
    · exact ⟨q, (Slot.holds_iff.mp hj).2, i, .inl ⟨rfl, rfl⟩⟩
    · exact ⟨_, h.table.adopter.pid, n, .inr ⟨rfl, hzombie⟩⟩

/-- An exit that goes through changes the table as the end of one process does. -/
theorem finish_table (h : x.Sound) {i : Nat} {p : Pid} {code : ExitCode} (told : List Event)
    (hp : (x.table.slotAt i).holds p = true) (hne : p ≠ x.table.adopter) :
    (x.kernel.finish i p code told).result = .ok () ∧
      (x.kernel.finish i p code told).kernel.table = x.table.ending (.one p code) := by
  have hi0 : i ≠ 0 := fun h0 => hne ((h.table.eq_zero_iff hp).mp h0)
  obtain ⟨q, hq, j, hj, -⟩ := h.table.parent_alive i hi0 (Slot.holds_iff.mp hp).1
  have hc := continues_wakes (wakeOrder x.table p j i) (x.kernel.fallen i p code)
  rw [finish_eq h hp hne hq hj code told]
  refine ⟨rfl, Table.ext_slotAt ?_ hc.pool hc.adopter fun m => ?_⟩
  · rw [hc.capacity, Table.capacity_ending]
    exact Table.capacity_fall
  · rw [slotAt_wakes, slotAt_fallen h hp, Slot.waiters_fell, Table.slotAt_ending]
    by_cases him : m = i
    · subst him
      have hstill : ((x.table.slotAt m).fell x.table.adopter (.one p code)).rouse =
          (x.table.slotAt m).fell x.table.adopter (.one p code) :=
        Slot.rouse_fell_of_ends (Slot.holds_iff.mp hp).2 (by simp [Codes.one])
      rw [hstill, ite_self, ite_self]
    · refine if_congr ?_ rfl rfl
      rw [rouses_one_iff h hp hq hj, mem_wakeOrder, or_iff_right him]

end Kernel

/-! ## Several exits -/

/-- A process may end: it is not the adopter, and it is running or alive with blocked callers. -/
def Table.MayEnd (t : Table) (p : Pid) : Prop :=
  p ≠ t.adopter ∧ ∃ i, (t.slotAt i).holds p = true ∧ ((t.slotAt i).status = .running ∨
    (t.slotAt i).status.isAlive = true ∧ (t.slotAt i).waiters ≠ 0)

theorem Table.MayEnd.ending {t : Table} {p : Pid} {codes : Codes} (h : t.MayEnd p)
    (hp : codes p = none) : (t.ending codes).MayEnd p := by
  obtain ⟨hne, i, hi, hstatus⟩ := h
  have hstays : (t.slotAt i).endsWith? codes = none := by
    rw [Slot.endsWith?_of_holds hi, hp]
  refine ⟨hne, i, by rwa [holds_ending], ?_⟩
  rw [waiters_ending]
  rcases status_ending hstays with hsame | ⟨hasleep, hwoken⟩
  · rwa [hsame]
  · refine hstatus.imp (fun hrunning => ?_) fun hw => ⟨?_, hw.2⟩
    · simp [hasleep] at hrunning
    · rw [hwoken]
      rfl

namespace Kernel

variable {x : Scene}

/-- Ends some processes, one after the other. -/
def exitAll (k : Kernel) : List (Pid × ExitCode) → Outcome Unit
  | [] => k.answer ()
  | (p, code) :: rest => (k.exit p code).andThen fun _ k => k.exitAll rest

theorem exit_eq_finish (h : x.Sound) {p : Pid} {i : Nat} (hp : (x.table.slotAt i).holds p = true)
    (hne : p ≠ x.table.adopter) (hstatus : (x.table.slotAt i).status = .running ∨
      (x.table.slotAt i).status.isAlive = true ∧ (x.table.slotAt i).waiters ≠ 0)
    (code : ExitCode) : ∃ told, x.kernel.exit p code = x.kernel.finish i p code told := by
  have hslot : x.kernel.table.slotOf? p = some i := h.table.slotOf?_of_holds hp
  have hne' : p ≠ x.kernel.table.adopter := hne
  unfold exit
  rw [hslot]
  dsimp only
  rw [if_neg hne']
  split
  · exact ⟨_, rfl⟩
  · rename_i hquiet
    rcases hstatus with hrunning | ⟨ha, hw⟩
    · rw [if_pos (by rw [hrunning]; rfl)]
      exact ⟨_, rfl⟩
    · exact absurd ⟨Nat.pos_of_ne_zero hw, ha⟩ hquiet

theorem exit_of_mayEnd (h : x.Sound) {p : Pid} (hp : x.table.MayEnd p) (code : ExitCode) :
    (x.kernel.exit p code).result = .ok () ∧
      (x.kernel.exit p code).kernel.table = x.table.ending (.one p code) := by
  obtain ⟨hne, i, hi, hstatus⟩ := hp
  obtain ⟨told, heq⟩ := exit_eq_finish h hi hne hstatus code
  rw [heq]
  exact finish_table h told hi hne

/-- Exits one after the other go through, and come to the end of all those processes together. -/
theorem exitAll_eq (h : x.Sound) {exits : List (Pid × ExitCode)}
    (hn : (exits.map Prod.fst).Nodup) (hmay : ∀ e ∈ exits, x.table.MayEnd e.1) :
    (x.kernel.exitAll exits).result = .ok () ∧
      (x.kernel.exitAll exits).kernel.table = x.table.ending (.of exits) ∧
      Scene.Sound ⟨(x.kernel.exitAll exits).kernel, x.blocked, x.owed⟩ := by
  induction exits generalizing x with
  | nil => exact ⟨rfl, Table.ending_none.symm, h⟩
  | cons e rest ih =>
    obtain ⟨p, code⟩ := e
    rw [List.map_cons, List.nodup_cons] at hn
    have hp := hmay (p, code) List.mem_cons_self
    have hother : ∀ e ∈ rest, e.1 ≠ p := fun e he heq => hn.1 (List.mem_map.mpr ⟨e, he, heq⟩)
    obtain ⟨hr, hk⟩ := exit_of_mayEnd h hp code
    -- The scene in which the first process has ended, and the others may still end.
    have hled := led_exit h p code
    rw [Outcome.Led, hr] at hled
    have hs := h.moves hled
    have hrest : ∀ e ∈ rest, (x.kernel.exit p code).kernel.table.MayEnd e.1 := by
      intro e he
      rw [hk]
      apply (hmay e (List.mem_cons_of_mem _ he)).ending
      simp [Codes.one, hother e he]
    obtain ⟨hresult, htable, hsound⟩ := ih hs hn.2 hrest
    have hall : x.kernel.exitAll ((p, code) :: rest) =
        ⟨((x.kernel.exit p code).kernel.exitAll rest).result,
          ((x.kernel.exit p code).kernel.exitAll rest).kernel,
          (x.kernel.exit p code).events ++
            ((x.kernel.exit p code).kernel.exitAll rest).events⟩ := by
      rw [exitAll, Outcome.andThen, hr]
    rw [hall]
    refine ⟨hresult, htable.trans ?_, hsound⟩
    show (x.kernel.exit p code).kernel.table.ending (.of rest) = _
    rw [hk]
    apply Table.ending_ending
    · intro q hq
      obtain rfl : q = p := by simpa [Codes.one] using hq
      exact Codes.of_eq_none hother
    · exact Codes.of_eq_none fun e he => (hmay e (List.mem_cons_of_mem _ he)).1

end Kernel

namespace Session

variable {config : Config} {s : Session}

/-- A process other than the adopter may end: it is running, or it lives and callers are blocked on
its behalf. -/
def MayEnd (s : Session) (p : Pid) : Prop :=
  p ≠ s.kernel.table.adopter ∧ ∃ status, s.kernel.table.status? p = some status ∧
    (status = .running ∨
      status.isAlive = true ∧ ∃ sleeper ∈ s.sleepers, sleeper.waiter.caller.parent = p)

theorem MayEnd.table (h : s.scene.Sound) {p : Pid} (hp : s.MayEnd p) :
    s.kernel.table.MayEnd p := by
  obtain ⟨hne, status, hstatus, hmay⟩ := hp
  obtain ⟨i, hi, rfl⟩ := Option.map_eq_some_iff.mp hstatus
  have hholds := Table.holds_of_slotOf? hi
  refine ⟨hne, i, hholds, hmay.imp_right fun hx => ?_⟩
  obtain ⟨ha, sleeper, hm, hparent⟩ := hx
  have hblocked := mem_blocked.mpr ⟨sleeper, hm, rfl⟩
  have hpinned := (h.pinned _ hblocked).1
  rw [hparent] at hpinned
  have hslot := h.table.holds_unique _ _ p hpinned hholds
  exact ⟨ha, hslot ▸ h.waiters_pos hblocked⟩

/-- Processes that may end can be ended one after the other in every order, and every order leads to
the same table. -/
theorem exits_of_reachable (h : Reachable config s) (exits order : List (Pid × ExitCode))
    (hn : (exits.map Prod.fst).Nodup) (hmay : ∀ e ∈ exits, s.MayEnd e.1)
    (hperm : order.Perm exits) :
    (s.kernel.exitAll order).result = .ok () ∧
      (s.kernel.exitAll order).kernel.table = (s.kernel.exitAll exits).kernel.table := by
  have hn' : (order.map Prod.fst).Nodup := (hperm.map Prod.fst).nodup_iff.mpr hn
  have hexits := Kernel.exitAll_eq h.sound hn fun e he => (hmay e he).table h.sound
  have horder := Kernel.exitAll_eq h.sound hn' fun e he =>
    (hmay e (hperm.mem_iff.mp he)).table h.sound
  refine ⟨horder.1, horder.2.1.trans ?_⟩
  rw [Codes.of_perm hn hperm]
  exact hexits.2.1.symm

/-- A child and a parent on whose behalf a caller is blocked may both end. A child of the child has
ended already, and the adopter is waiting. -/
def generations : List Act :=
  [.serve (.create ⟨7⟩ []), .serve (.transition ⟨0⟩ .running), .serve (.create ⟨0⟩ []),
    .serve (.transition ⟨1⟩ .running), .serve (.create ⟨1⟩ []), .serve (.transition ⟨2⟩ .running),
    .serve (.exit ⟨2⟩ 9), .wait ⟨7⟩ (.only ⟨0⟩), .wait ⟨0⟩ (.only ⟨1⟩)]

/-- The parent's callers are woken twice if the child ends first, once otherwise. -/
theorem exits_of_generations :
    ∃ s, run ⟨4, ⟨7⟩⟩ generations = .ok s ∧
      (s.kernel.exitAll [(⟨1⟩, 4), (⟨0⟩, 3)]).result = .ok () ∧
      (s.kernel.exitAll [(⟨1⟩, 4), (⟨0⟩, 3)]).kernel.table =
        (s.kernel.exitAll [(⟨0⟩, 3), (⟨1⟩, 4)]).kernel.table ∧
      (s.kernel.exitAll [(⟨1⟩, 4), (⟨0⟩, 3)]).kernel.channels.wakes = [3, 2, 0, 0] ∧
      (s.kernel.exitAll [(⟨0⟩, 3), (⟨1⟩, 4)]).kernel.channels.wakes = [3, 1, 0, 0] ∧
      (s.kernel.exitAll [(⟨1⟩, 4), (⟨0⟩, 3)]).kernel.table.profiles =
        [⟨⟨7⟩, .runnable, none, none, false⟩, ⟨⟨0⟩, .zombie, some ⟨7⟩, some 3, false⟩,
          ⟨⟨1⟩, .zombie, some ⟨7⟩, some 4, false⟩, ⟨⟨2⟩, .zombie, some ⟨7⟩, some 9, false⟩] := by
  have hrun : run ⟨4, ⟨7⟩⟩ generations = .ok _ := rfl
  have hexits := exits_of_reachable (.run hrun) [(⟨0⟩, 3), (⟨1⟩, 4)] [(⟨1⟩, 4), (⟨0⟩, 3)]
    (by decide) ?_ (by decide)
  · exact ⟨_, hrun, hexits.1, hexits.2, by decide, by decide, by decide⟩
  · intro e he
    have hcases : e = (⟨0⟩, 3) ∨ e = (⟨1⟩, 4) := by simpa using he
    rcases hcases with rfl | rfl
    · exact ⟨by decide, .sleeping, rfl, .inr ⟨rfl, ⟨1, ⟨1, ⟨0⟩, .only ⟨1⟩⟩, 0⟩, by decide, rfl⟩⟩
    · exact ⟨by decide, .running, rfl, .inl rfl⟩

end Session

end Lifecycle
