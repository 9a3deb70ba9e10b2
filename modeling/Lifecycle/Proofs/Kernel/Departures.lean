import Lifecycle.Proofs.Kernel.Kin
import Lifecycle.Proofs.Kernel.Wakeups
/-!
# Departures

The end of a process concerns four kinds of slots: its own, those of its children, its parent's, and
the adopter's. What becomes of each of them is said here exactly, and that nothing becomes of any
other. So a process changes hands only when its parent ends, and then it goes to the adopter.
-/

namespace Lifecycle

namespace Table

/-- The table after the process `p` of slot `i`, with its parent in slot `j`, has ended with a code.
-/
structure Departs (t : Table) (p : Pid) (j i : Nat) (code : ExitCode) (t' : Table) : Prop where
  fixed : t'.capacity = t.capacity ∧ t'.pool = t.pool ∧ t'.adopter = t.adopter
  self : t'.slotAt i =
    { t.slotAt i with status := .zombie, exitCode := some code, space := none }
  orphan : ∀ m, (t.slotAt m).isChildOf p = true →
    t'.slotAt m = { t.slotAt m with parent := some t.adopter }
  other : ∀ m, m ≠ i → (t.slotAt m).isChildOf p = false → t'.slotAt m =
    { t.slotAt m with
      status :=
        if m ∈ Kernel.wakeOrder t p j i ∧ (t.slotAt m).waiters ≠ 0 ∧
          (t.slotAt m).status = .sleeping then .runnable
        else (t.slotAt m).status }

/-- A process is not the child of its own child. -/
theorem Ranked.not_isChildOf_parent {t : Table} (h : t.Ranked) {i j : Nat} {p q : Pid}
    (hp : (t.slotAt i).holds p = true) (hq : (t.slotAt i).parent = some q)
    (hj : (t.slotAt j).holds q = true) : (t.slotAt j).isChildOf p = false := by
  obtain ⟨rank, -, hrank⟩ := h
  rw [Bool.eq_false_iff, ne_eq, Slot.isChildOf_iff]
  intro hchild
  have hup := hrank i p q hp hq
  have hdown := hrank j q p hj hchild.2
  omega

end Table

namespace Kernel

variable {x : Scene} {p q : Pid} {i j : Nat} {code : ExitCode}

/-- Each wake of a slot with callers moves its channel on by one. -/
theorem count_wakes (debts : List Nat) {k : Kernel}
    (hlen : k.channels.wakes.length = k.table.capacity) (m : Nat) :
    (debts.foldl wake k).channels.count m =
      k.channels.count m + if (k.table.slotAt m).waiters = 0 then 0 else debts.count m := by
  induction debts generalizing k with
  | nil => simp
  | cons i rest ih =>
    rw [List.foldl_cons]
    by_cases hi : (k.table.slotAt i).waiters = 0
    · rw [wake_of_none hi, ih hlen, List.count_cons]
      by_cases him : i = m
      · subst him
        simp [hi]
      · simp [him]
    · have hlt : i < k.channels.wakes.length := by
        rw [hlen]
        exact Table.lt_capacity_of_waiters hi
      have hlen' : (k.wake i).channels.wakes.length = (k.wake i).table.capacity := by
        rw [(k.continues_wake i).capacity, ← hlen, wake_of_waiters hi]
        simp [Channels.wake]
      have hcount : (k.wake i).channels.count m =
          if i = m then k.channels.count m + 1 else k.channels.count m := by
        rw [wake_of_waiters hi]
        exact Channels.count_wake hlt m
      rw [ih hlen', hcount, (k.slotAt_wake i m).2, List.count_cons]
      by_cases him : i = m
      · subst him
        simp [hi]
        omega
      · simp [him]

/-- Whoever ends was running, or lived and kept callers. -/
theorem mayEnd_of_exit {k : Kernel} (hr : (k.exit p code).result = .ok ()) : k.table.MayEnd p := by
  unfold exit at hr
  cases hs : k.table.slotOf? p with
  | none =>
    rw [hs] at hr
    cases hr
  | some i =>
    have hp := Table.holds_of_slotOf? hs
    rw [hs] at hr
    dsimp only at hr
    split at hr
    · cases hr
    · rename_i hne
      refine ⟨hne, i, hp, ?_⟩
      split at hr
      · rename_i hblocked
        exact .inr ⟨hblocked.2, Nat.pos_iff_ne_zero.mp hblocked.1⟩
      · split at hr
        · rename_i hz
          left
          cases hst : (k.table.slotAt i).status <;> simp_all [Status.canBecome]
        · cases hr

theorem departs_wakes (h : x.Sound) (hp : (x.table.slotAt i).holds p = true)
    (hq : (x.table.slotAt i).parent = some q) (hj : (x.table.slotAt j).holds q = true)
    (code : ExitCode) : x.table.Departs p j i code
      ((wakeOrder x.table p j i).foldl wake (x.kernel.fallen i p code)).table := by
  have hlt := Table.lt_capacity_of_holds hp
  have hc := continues_wakes (wakeOrder x.table p j i) (x.kernel.fallen i p code)
  have hself : (x.kernel.fallen i p code).table.slotAt i = _ := h.ranked.slotAt_fall_self hp
  have hother : ∀ m, i ≠ m → (x.kernel.fallen i p code).table.slotAt m = _ :=
    fun m him => Table.slotAt_fall_other hlt him
  constructor
  case fixed => exact ⟨hc.capacity.trans Table.capacity_fall, hc.pool, hc.adopter⟩
  case self =>
    -- A zombie is not asleep, so it makes no difference whether its own callers are woken.
    rw [slotAt_wakes, hself, Slot.rouse_of_zombie rfl, ite_self]
  case orphan =>
    intro m hchild
    have hparent := (Slot.isChildOf_iff.mp hchild).2
    have him : i ≠ m := by
      intro him
      subst him
      exact h.ranked.parent_ne hp hparent rfl
    have hquiet : m ∉ wakeOrder x.table p j i := by
      rw [mem_wakeOrder]
      intro hm
      rcases hm with rfl | rfl | ⟨rfl, -⟩
      · exact him rfl
      · rw [h.ranked.not_isChildOf_parent hp hq hj] at hchild
        cases hchild
      · exact h.table.ne_zero_of_parent hparent rfl
    rw [slotAt_wakes, if_neg fun hm => hquiet hm.1, hother m him, if_pos hchild]
  case other =>
    intro m hmi hchild
    have hslot : (x.kernel.fallen i p code).table.slotAt m = x.table.slotAt m := by
      rw [hother m hmi.symm, if_neg (by rw [hchild]; decide)]
    rw [slotAt_wakes, hslot, Slot.rouse_eq]
    by_cases hwoken : m ∈ wakeOrder x.table p j i ∧ (x.table.slotAt m).waiters ≠ 0
    · simp [hwoken]
    · rw [if_neg hwoken, if_neg fun hm => hwoken ⟨hm.1, hm.2.1⟩]

/-- An exit goes through exactly if the process may end. -/
theorem exit_ok_iff (h : x.Sound) :
    (x.kernel.exit p code).result = .ok () ↔ x.table.MayEnd p :=
  ⟨mayEnd_of_exit, fun hp => (exit_of_mayEnd h hp code).1⟩

/-- What an exit that goes through does, and what it tells last. -/
theorem exit_departs (h : x.Sound) (hlen : x.kernel.channels.wakes.length = x.table.capacity)
    (hmay : x.table.MayEnd p) (code : ExitCode) :
    ∃ i j q, (x.table.slotAt i).holds p = true ∧ (x.table.slotAt i).parent = some q ∧
      (x.table.slotAt j).holds q = true ∧
      x.table.Departs p j i code (x.kernel.exit p code).kernel.table ∧
      (∀ m, (x.kernel.exit p code).kernel.channels.count m = x.kernel.channels.count m +
        if (x.table.slotAt m).waiters = 0 then 0 else (wakeOrder x.table p j i).count m) ∧
      (x.kernel.exit p code).events.getLast? = some (.exited p code
        (((x.table.slotAt i).space.map AddressSpace.pageCount).getD 0) (x.table.kids p)
        x.table.adopter) := by
  obtain ⟨hne, i, hp, hstatus⟩ := hmay
  have hi0 : i ≠ 0 := fun h0 => hne ((h.table.eq_zero_iff hp).mp h0)
  obtain ⟨q, hq, j, hj, -⟩ := h.table.parent_alive i hi0 (Slot.holds_iff.mp hp).1
  obtain ⟨told, heq⟩ := exit_eq_finish h hp hne hstatus code
  have hkids : (x.table.childSlots p).length = x.table.kids p := by
    rw [Table.kids, Table.childSlots, List.countP_eq_length_filter]
  have hwaiters : ∀ m, ((x.kernel.fallen i p code).table.slotAt m).waiters =
      (x.table.slotAt m).waiters := by
    intro m
    rw [slotAt_fallen h hp, Slot.waiters_fell]
  have hlen' : (x.kernel.fallen i p code).channels.wakes.length =
      (x.kernel.fallen i p code).table.capacity := hlen.trans Table.capacity_fall.symm
  rw [heq, finish_eq h hp hne hq hj code told]
  refine ⟨i, j, q, hp, hq, hj, departs_wakes h hp hq hj code, fun m => ?_, ?_⟩
  · dsimp only
    rw [count_wakes _ hlen', hwaiters]
    rfl
  · rw [List.getLast?_concat, hkids]

end Kernel

/-! ## Who hands a process over -/

/-- A deed is the end of a process. -/
def Deed.ends (p : Pid) : Deed → Bool
  | .ended q _ => q = p
  | _ => false

namespace Scene

variable {x y : Scene} {m : Nat}

/-- What a process has for a parent when it is given to the adopter as its own parent ends. -/
theorem Moves.parent_slotAt (h : x.Sound) {d : Option Deed} (hm : Moves x d.toList y)
    (hu : (x.table.slotAt m).inUse = true) (hu' : (y.table.slotAt m).inUse = true) :
    (y.table.slotAt m).parent = (x.table.slotAt m).parent.map fun q =>
      if d.any (Deed.ends q) then x.table.adopter else q := by
  cases d with
  | none =>
    rw [(hm.continues.slots m).parent]
    simp
  | some d =>
    obtain ⟨x', y', hx, hd, hy⟩ := hm.split
    have hx' := h.moves hx
    rw [(hy.continues.slots m).parent, ← (hx.continues.slots m).parent]
    rw [← (hx.continues.slots m).inUse] at hu
    rw [(hy.continues.slots m).inUse] at hu'
    have hadopter : x'.table.adopter = x.table.adopter := hx.continues.adopter
    cases hd with
    | @take _ i parent free living =>
      obtain ⟨hi, hfree, -⟩ := Table.freeSlot?_eq_some.mp free
      have hslot : (x'.table.fill i parent).slotAt m = x'.table.slotAt m := by
        rw [Table.slotAt_take hi, if_neg (Table.ne_of_free hfree hu)]
      show ((x'.table.fill i parent).slotAt m).parent = _
      rw [hslot]
      simp [Deed.ends]
    | @fall _ i p code debts holds alive other self parent adopter =>
      have hslot : (x'.table.fall i p code).slotAt m = _ := Kernel.slotAt_fallen hx' holds m
      show ((x'.table.fall i p code).slotAt m).parent = _
      rw [hslot, Slot.parent_fell, Slot.heir?_one, hadopter]
      cases (x'.table.slotAt m).parent with
      | none => rfl
      | some q =>
        by_cases hqp : q = p
        · simp [Deed.ends, hqp]
        · simp [Deed.ends, hqp, Ne.symm hqp]
    | @drop _ i p q code remains zombie empty parent code_eq =>
      have hi := Table.lt_capacity_of_holds remains
      have hslot : ∀ j, (x'.table.vacate i p).slotAt j =
          if i = j then .blank else x'.table.slotAt j := Table.slotAt_drop hi
      have him : i ≠ m := by
        intro him
        change ((x'.table.vacate i p).slotAt m).inUse = true at hu'
        rw [hslot, if_pos him] at hu'
        cases hu'
      show ((x'.table.vacate i p).slotAt m).parent = _
      rw [hslot, if_neg him]
      simp [Deed.ends]

end Scene

/-- Only an exit tells of an end. -/
theorem Request.exit_of_ends {r : Request} {answer : Answer} {p : Pid}
    (h : (r.deed? answer).any (Deed.ends p) = true) : ∃ code, r = .exit p code := by
  unfold Request.deed? at h
  split at h <;> simp_all [Deed.ends]

namespace Session

variable {config : Config} {s : Session}

/-- An act is the exit of a process, and it goes through. -/
def exits (s : Session) (q : Pid) : Act → Bool
  | .serve (.exit p code) => p = q && (s.kernel.exit p code).result.isOk
  | _ => false

/-- A process exits in the course of some acts. -/
def exitsIn (s : Session) (q : Pid) : List Act → Bool
  | [] => false
  | a :: rest => s.exits q a || (s.act a).exitsIn q rest

/-- The exits are the acts that tell of an end. -/
theorem any_ends_deed? (s : Session) (q : Pid) (a : Act) :
    (s.deed? a).any (Deed.ends q) = s.exits q a := by
  have hexit : ∀ p code, (s.deed? (.serve (.exit p code))).any (Deed.ends q) =
      s.exits q (.serve (.exit p code)) := by
    intro p code
    have hserve : (s.serve (.exit p code)).2.1 =
        (s.kernel.exit p code).result.map fun _ => .done := rfl
    rw [deed?, exits, hserve]
    cases (s.kernel.exit p code).result with
    | error fault => simp [Except.map, Except.isOk, Except.toBool]
    | ok _ => simp [Except.map, Except.isOk, Except.toBool, Request.deed?, Deed.ends]
  rw [Bool.eq_iff_iff]
  constructor
  · intro h
    have hact : ∃ code, a = .serve (.exit q code) := by
      unfold deed? at h
      split at h <;> split at h
      · obtain ⟨code, rfl⟩ := Request.exit_of_ends h
        exact ⟨code, rfl⟩
      all_goals cases h
    obtain ⟨code, rfl⟩ := hact
    rwa [← hexit]
  · intro h
    unfold exits at h
    split at h
    · rename_i p code
      rw [hexit]
      exact h
    · cases h

/-- In the course of some acts a process keeps its parent, unless that exits: then it goes to the
adopter. -/
theorem parent_follow (h : s.scene.Sound) {m : Nat} (acts : List Act)
    (hstay : ∀ n, ((s.follow (acts.take n)).kernel.table.slotAt m).inUse = true) :
    ((s.follow acts).kernel.table.slotAt m).parent = (s.kernel.table.slotAt m).parent.map fun q =>
      if s.exitsIn q acts then s.kernel.table.adopter else q := by
  induction acts generalizing s with
  | nil => simp [exitsIn, follow]
  | cons a rest ih =>
    have hmoves := moves_act h a
    have hstep := hmoves.parent_slotAt h (hstay 0) (hstay 1)
    have hadopter : (s.act a).kernel.table.adopter = s.kernel.table.adopter := hmoves.adopter
    have hrest := ih (h.moves hmoves) fun n => hstay (n + 1)
    have hfollow : s.follow (a :: rest) = (s.act a).follow rest := rfl
    have hparent : ((s.act a).kernel.table.slotAt m).parent =
        (s.kernel.table.slotAt m).parent.map fun q =>
          if s.exits q a then s.kernel.table.adopter else q := by
      simp only [any_ends_deed?] at hstep
      exact hstep
    rw [hfollow, hrest, hparent, hadopter, Option.map_map]
    congr 1
    funext q
    by_cases hq : s.exits q a = true
    · simp [exitsIn, hq]
    · simp [exitsIn, hq]

/-- An exit goes through exactly if the process is not the adopter and runs, or lives and keeps
callers. Its slot then holds a zombie with the code and without address space, and is otherwise as it
was; its children are handed to the adopter, as many as the exit tells of, and are otherwise as they
were. A parent that sleeps becomes ready if callers are blocked on its behalf, and so does the adopter
if it is handed a zombie; nothing else changes in any slot. The channels of these two and of the
process itself are woken, where there are callers, and no others. In the course of any acts a process
keeps its parent, unless that exits: then it goes to the adopter. -/
theorem departure_of_reachable (h : Reachable config s) :
    (∀ p code, (s.serve (.exit p code)).2.1 = .ok .done ↔ s.kernel.table.MayEnd p) ∧
      (∀ p code, s.kernel.table.MayEnd p → ∃ i j q,
        (s.kernel.table.slotAt i).holds p = true ∧
        (s.kernel.table.slotAt i).parent = some q ∧ (s.kernel.table.slotAt j).holds q = true ∧
        s.kernel.table.Departs p j i code (s.serve (.exit p code)).1.kernel.table ∧
        (∀ m, (s.serve (.exit p code)).1.kernel.channels.count m = s.kernel.channels.count m +
          if (s.kernel.table.slotAt m).waiters = 0 then 0
          else (Kernel.wakeOrder s.kernel.table p j i).count m) ∧
        (s.serve (.exit p code)).2.2.getLast? = some (.exited p code
          (((s.kernel.table.slotAt i).space.map AddressSpace.pageCount).getD 0)
          (s.kernel.table.kids p) s.kernel.table.adopter)) ∧
      ∀ acts m p, (∀ n, ((s.follow (acts.take n)).kernel.table.slotAt m).holds p = true) →
        ((s.follow acts).kernel.table.slotAt m).parent =
          (s.kernel.table.slotAt m).parent.map fun q =>
            if s.exitsIn q acts then s.kernel.table.adopter else q := by
  have hs : s.scene.Sound := h.sound
  refine ⟨fun p code => ?_, fun p code hmay => ?_, fun acts m p hstay => ?_⟩
  · have hserve : (s.serve (.exit p code)).2.1 =
        (s.kernel.exit p code).result.map fun _ => .done := rfl
    have hok : (s.kernel.exit p code).result = .ok () ↔ s.kernel.table.MayEnd p :=
      Kernel.exit_ok_iff hs
    rw [hserve, ← hok]
    cases (s.kernel.exit p code).result <;> simp [Except.map]
  · exact Kernel.exit_departs hs h.prompt.channels hmay code
  · exact parent_follow hs acts fun n => (Slot.holds_iff.mp (hstay n)).1

/-- A child ends whose own child is a zombie already; its parent and the adopter sleep, as callers are
blocked on their behalf, and become ready. Then the parent ends too. -/
theorem departure_of_generations :
    ∃ s, run ⟨4, ⟨7⟩⟩ generations = .ok s ∧
      s.kernel.table.slots.map (·.status) = [.sleeping, .sleeping, .running, .zombie] ∧
      (s.serve (.exit ⟨1⟩ 4)).2.1 = .ok .done ∧
      s.kernel.table.Departs ⟨1⟩ 1 2 4 (s.serve (.exit ⟨1⟩ 4)).1.kernel.table ∧
      (s.serve (.exit ⟨1⟩ 4)).1.kernel.table.slotAt 0 =
        { s.kernel.table.slotAt 0 with status := .runnable } ∧
      (s.serve (.exit ⟨1⟩ 4)).1.kernel.table.slotAt 1 =
        { s.kernel.table.slotAt 1 with status := .runnable } ∧
      (s.serve (.exit ⟨1⟩ 4)).1.kernel.table.slots.map (·.status) =
        [.runnable, .runnable, .zombie, .zombie] ∧
      (s.serve (.exit ⟨1⟩ 4)).1.kernel.table.slots.map (·.parent) =
        [none, some ⟨7⟩, some ⟨0⟩, some ⟨7⟩] ∧
      (s.serve (.exit ⟨1⟩ 4)).1.kernel.channels.wakes = [1, 1, 0, 0] ∧
      ((s.follow [.serve (.exit ⟨1⟩ 4), .serve (.exit ⟨0⟩ 3)]).kernel.table.slotAt 2).parent =
        some ⟨7⟩ := by
  have hrun : run ⟨4, ⟨7⟩⟩ generations = .ok _ := rfl
  obtain ⟨hok, hdeparts, hparent⟩ := departure_of_reachable (.run hrun)
  have hdone := (hok ⟨1⟩ 4).mpr ⟨by decide, 2, by decide, .inl (by decide)⟩
  obtain ⟨i, j, q, hi, hq, hj, hdeparted, -⟩ := hdeparts ⟨1⟩ 4 ((hok ⟨1⟩ 4).mp hdone)
  have hsound := (Reachable.run hrun).sound.table
  obtain rfl : i = 2 := hsound.holds_unique i 2 ⟨1⟩ hi (by decide)
  obtain rfl : q = ⟨0⟩ := Option.some.inj (hq.symm.trans (by decide))
  obtain rfl : j = 1 := hsound.holds_unique j 1 ⟨0⟩ hj (by decide)
  have hadopter := hdeparted.other 0 (by decide) (by decide)
  have hparent' := hdeparted.other 1 (by decide) (by decide)
  refine ⟨_, hrun, by decide, hdone, hdeparted, hadopter, hparent', by decide, by decide, by decide,
    ?_⟩
  refine (hparent _ 2 ⟨1⟩ fun n => ?_).trans (by decide)
  match n with
  | 0 => decide
  | 1 => decide
  | n + 2 =>
    rw [List.take_of_length_le (by simp)]
    decide

end Session

end Lifecycle
