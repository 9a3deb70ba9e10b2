import Lifecycle.Proofs.Kernel.Lives
/-!
# Calls in flight

A blocked caller keeps the index of the slot of the process that it speaks for, and nothing else
from before its sleep. However many processes come and go meanwhile, that slot is not given away:
the callers of a slot are counted, and a slot with callers is not freed. The child that a call waits
for is not held back in this way. If another call collects it before a woken caller can look, the
answer may be a later child that was given the same identity.
-/

namespace Lifecycle

namespace Kernel

variable {k : Kernel} {w : Waiter} {blocked : Multiset Waiter}

/-- What a collected child is told with. -/
theorem collect_result (k : Kernel) (parent : Pid) (i : Nat) (p : Pid) (code : ExitCode) :
    (k.collect parent i p code).result = .ok code ∨
      (k.collect parent i p code).result = .error .corrupt := by
  rw [collect]
  split
  · exact .inr rfl
  · exact .inl rfl

/-- How a search can end: in a refusal or a contradiction, with a child, or in sleep. -/
theorem look_result (k : Kernel) (c : Caller) :
    (∃ fault, fault ≠ .overflow ∧ (k.look c).result = .error fault) ∨
      (∃ i p code, k.table.find c.parent c.target = .found i p code ∧
        (k.look c).result = .ok (.collected p code)) ∨
      k.table.find c.parent c.target = .pending ∧
        ∃ w, (k.look c).result = .ok (.asleep w) := by
  rcases k.look_cases c with ⟨why, h⟩ | ⟨i, p, code, hf, h⟩ | ⟨-, hf, h⟩ <;> rw [h]
  · exact .inl ⟨.refused why, by simp, rfl⟩
  · rcases k.collect_result c.parent i p code with hr | hr
    · exact .inr (.inl ⟨i, p, code, hf, by simp [Outcome.map, Except.map, hr]⟩)
    · exact .inl ⟨.corrupt, by simp, by simp [Outcome.map, Except.map, hr]⟩
  · exact .inr (.inr ⟨hf, _, rfl⟩)

theorem look_ne_overflow (k : Kernel) (c : Caller) : (k.look c).result ≠ .error .overflow := by
  intro h
  rcases k.look_result c with ⟨fault, hne, hr⟩ | ⟨i, p, code, -, hr⟩ | ⟨-, w, hr⟩ <;> simp_all

/-- What a caller is handed is what it looked for. -/
theorem matches_of_look {c : Caller} {p : Pid} {code : ExitCode}
    (h : (k.look c).result = .ok (.collected p code)) : c.target.matches p = true := by
  rcases k.look_result c with ⟨fault, -, hr⟩ | ⟨i, p', code', hf, hr⟩ | ⟨-, w, hr⟩ <;>
    rw [hr] at h <;> simp at h
  obtain ⟨rfl, rfl⟩ := h
  obtain ⟨hm, -⟩ := Slot.remains?_eq_some.mp (Table.find_eq_found hf)
  exact (Slot.matching?_eq_some.mp hm).2.2

theorem pending_of_look {c : Caller} (h : (k.look c).result = .ok (.asleep w)) :
    k.table.find c.parent c.target = .pending := by
  rcases k.look_result c with ⟨fault, -, hr⟩ | ⟨i, p, code, -, hr⟩ | ⟨hf, -⟩
  · simp [hr] at h
  · simp [hr] at h
  · exact hf

theorem matches_of_resume (h : Scene.Sound ⟨k, w ::ₘ blocked, []⟩) {p : Pid} {code : ExitCode}
    (hr : (k.resume w.caller).result = .ok (.collected p code)) :
    w.caller.target.matches p = true := by
  obtain ⟨left, -, ⟨-, hres⟩ | ⟨-, status, -, hres⟩⟩ := resume_cases h <;> rw [hres] at hr
  · simp [refuse, fail] at hr
  · exact matches_of_look hr

/-- A caller that leaves its slot is one of those that are counted there. -/
theorem resume_ne_overflow (h : Scene.Sound ⟨k, w ::ₘ blocked, []⟩) :
    (k.resume w.caller).result ≠ .error .overflow := by
  obtain ⟨left, -, ⟨-, hr⟩ | ⟨-, status, -, hr⟩⟩ := resume_cases h <;> rw [hr]
  · simp [refuse, fail]
  · exact look_ne_overflow _ _

end Kernel

namespace Session

variable {s : Session} {sleeper : Sleeper} {i : Nat}

/-- A caller is blocked until its own sleep ends. -/
theorem sleeper_stays (h : sleeper ∈ s.sleepers) (a : Act) :
    sleeper ∈ (s.act a).sleepers ∨ ∃ i, a = .rouse i ∧ s.sleepers[i]? = some sleeper := by
  cases a with
  | serve r => exact .inl h
  | wait parent target =>
    left
    simp only [act, wait]
    split
    · exact h
    · exact h
    · exact List.mem_append_left _ h
  | rouse i =>
    cases hi : s.sleepers[i]? with
    | none =>
      simp only [act, rouse, hi]
      exact .inl h
    | some old =>
      obtain ⟨hlt, rfl⟩ := List.getElem?_eq_some_iff.mp hi
      have hperm := List.getElem_cons_eraseIdx_perm hlt
      rcases List.mem_cons.mp (hperm.mem_iff.mpr h) with rfl | hrest
      · exact .inr ⟨i, rfl, hi⟩
      · left
        simp only [act, rouse, hi]
        split
        · exact hrest
        · exact hrest
        · exact (List.set_perm_cons_eraseIdx hlt _).mem_iff.mpr (List.mem_cons_of_mem _ hrest)

theorem rouse_ne_overflow (h : s.scene.Sound) (i : Nat) : s.fault? (.rouse i) ≠ some .overflow := by
  simp only [fault?, rouse]
  cases hi : s.sleepers[i]? with
  | none => simp [Activity.none]
  | some sleeper =>
    obtain ⟨hlt, rfl⟩ := List.getElem?_eq_some_iff.mp hi
    rw [scene_eq_cons hlt] at h
    have hne := Kernel.resume_ne_overflow h
    dsimp only
    cases hr : (s.kernel.resume s.sleepers[i].waiter.caller).result with
    | error fault => simpa [hr] using hne
    | ok waiting => cases waiting <;> simp

/-- Whoever spoke for a process that has ended collects nothing. -/
theorem deed?_rouse_of_zombie (h : s.scene.Sound) (hi : s.sleepers[i]? = some sleeper)
    (hz : (s.kernel.table.slotAt sleeper.waiter.caller.slot).isZombie = true) :
    s.deed? (.rouse i) = none := by
  obtain ⟨hlt, rfl⟩ := List.getElem?_eq_some_iff.mp hi
  rw [scene_eq_cons hlt] at h
  obtain ⟨left, -, ⟨-, hr⟩ | ⟨ha, -⟩⟩ := Kernel.resume_cases h
  · simp [deed?, rouse, hi, hr, Kernel.refuse, Kernel.fail]
  · rw [Slot.not_zombie_of_alive ha] at hz
    simp at hz

/-- A caller whose sleep ends collects on behalf of its process, and what it waited for. -/
theorem collected_of_rouse (h : s.scene.Sound) {q p : Pid} {code : ExitCode}
    (hd : s.deed? (.rouse i) = some (.collected q p code)) :
    ∃ sleeper, s.sleepers[i]? = some sleeper ∧ sleeper.waiter.caller.parent = q ∧
      sleeper.waiter.caller.target.matches p = true := by
  simp only [deed?, rouse] at hd
  cases hi : s.sleepers[i]? with
  | none => simp [hi] at hd
  | some sleeper =>
    obtain ⟨hlt, rfl⟩ := List.getElem?_eq_some_iff.mp hi
    rw [scene_eq_cons hlt] at h
    cases hr : (s.kernel.resume s.sleepers[i].waiter.caller).result with
    | error fault => simp [hi, hr] at hd
    | ok waiting =>
      cases waiting with
      | asleep w => simp [hi, hr] at hd
      | collected p' code' =>
        simp only [hi, hr, Option.some.injEq, Deed.collected.injEq] at hd
        obtain ⟨hparent, rfl, -⟩ := hd
        exact ⟨_, rfl, hparent, Kernel.matches_of_resume h hr⟩

/-- A call that blocks has a child to wait for. -/
theorem pending_of_blocked {parent : Pid} {target : Target} {id : Nat}
    (h : (s.wait parent target).2.1 = .blocked id) :
    s.kernel.table.find parent target = .pending := by
  simp only [wait] at h
  cases hr : (s.kernel.wait parent target).result with
  | error fault => simp [hr] at h
  | ok waiting =>
    cases waiting with
    | collected p code => simp [hr] at h
    | asleep w =>
      rw [Kernel.wait] at hr
      split at hr
      · simp [Kernel.refuse, Kernel.fail] at hr
      · exact Kernel.pending_of_look hr

end Session

namespace Chronicle

variable {c : Chronicle} {config : Config} {k : Kernel}

/-! ## Slots with callers -/

theorem Sound.waiters (hs : c.Sound) (i : Nat) : (c.table.slotAt i).waiters =
    c.session.sleepers.countP fun sleeper => sleeper.waiter.caller.slot = i := by
  have hcount := hs.scene.waiters i
  simpa [Session.scene, List.countP_map, Function.comp_def] using hcount

/-- A slot that is freed has no callers. -/
theorem Sound.waiters_of_freed (hs : c.Sound) {a : Act} {i : Nat}
    (hu : (c.table.slotAt i).inUse = true) (hfreed : ((c.act a).table.slotAt i).inUse = false) :
    (c.table.slotAt i).waiters = 0 := by
  by_contra hpos
  rw [hs.waiters] at hpos
  obtain ⟨sleeper, hm, hslot⟩ := List.countP_pos_iff.mp (Nat.pos_of_ne_zero hpos)
  obtain rfl : sleeper.waiter.caller.slot = i := by simpa using hslot
  have hchange := hs.change a sleeper.waiter.caller.slot
  generalize htold : c.told a sleeper.waiter.caller.slot = told at hchange
  cases hchange with
  | stays h => simp [h.inUse, hu] at hfreed
  | born free holds lives => simp [hu] at free
  | ended before lived holds zombie code_eq => simp [(Slot.holds_iff.mp holds).1] at hfreed
  | collected before zombie code_eq gone =>
    rcases Session.sleeper_stays hm a with hstays | ⟨j, rfl, hj⟩
    · have hpinned := (Slot.holds_iff.mp ((hs.act a).pinned hstays)).1
      simp [gone] at hpinned
    · simp [Chronicle.told, Session.deed?_rouse_of_zombie hs.scene hj zombie] at htold

/-! ## The call of a blocked caller -/

theorem follow_append (c : Chronicle) (acts rest : List Act) :
    c.follow (acts ++ rest) = (c.follow acts).follow rest := List.foldl_append

/-- In the course of some events a call was made that blocked a caller, on behalf of the process
that is in the caller's slot now. -/
def Called (c : Chronicle) (acts : List Act) (sleeper : Sleeper) : Prop :=
  ∃ before after,
    acts = before ++ .wait sleeper.waiter.caller.parent sleeper.waiter.caller.target :: after ∧
      ((c.follow before).session.wait sleeper.waiter.caller.parent
        sleeper.waiter.caller.target).2.1 = .blocked sleeper.id ∧
      (c.follow before).life? sleeper.waiter.caller.parent =
        some ⟨sleeper.waiter.caller.slot, (c.follow acts).since sleeper.waiter.caller.slot⟩

theorem called_of_asleep (hs : c.Sound) (hnone : c.session.sleepers = []) {acts : List Act}
    {sleeper : Sleeper} (hm : sleeper ∈ (c.follow acts).session.sleepers) :
    c.Called acts sleeper := by
  induction acts using List.reverseRecOn generalizing sleeper with
  | nil =>
    change sleeper ∈ c.session.sleepers at hm
    simp [hnone] at hm
  | append_singleton acts a ih =>
    have hsound := hs.follow acts
    have hstep : c.follow (acts ++ [a]) = (c.follow acts).act a := c.follow_append acts [a]
    rw [hstep] at hm
    rcases sleeper_act hm with ⟨old, hold, hid, hcaller⟩ | ⟨rfl, -, hblocked, hslot⟩
    · obtain ⟨before, after, hacts, hblocked, hlife⟩ := ih hold
      have hu := (Slot.holds_iff.mp (hsound.pinned hold)).1
      rw [hcaller] at hacts hblocked hlife hu
      rw [hid] at hblocked
      refine ⟨before, after ++ [a], by simp [hacts], hblocked, ?_⟩
      rw [hstep, since_act_of_inUse hu]
      exact hlife
    · have hu := (Slot.holds_iff.mp (Table.holds_of_slotOf? hslot)).1
      refine ⟨acts, [], rfl, hblocked, ?_⟩
      rw [hstep, since_act_of_inUse hu]
      simp only [life?, hslot, Option.map_some]

/-- Whatever events follow the setting up of a table, the slot of a blocked caller still holds the
process for which the call was made. Each slot counts the callers blocked on its behalf, so the
count never falls below zero, and no act frees a slot while it has callers. -/
theorem callers_of_run (hk : Kernel.boot config = .ok k) (acts : List Act) :
    let c := (start k).follow acts
    (∀ sleeper ∈ c.session.sleepers,
      (c.table.slotAt sleeper.waiter.caller.slot).holds sleeper.waiter.caller.parent = true ∧
        (start k).Called acts sleeper) ∧
      (∀ i, (c.table.slotAt i).waiters =
        c.session.sleepers.countP fun sleeper => sleeper.waiter.caller.slot = i) ∧
      (∀ i, c.session.fault? (.rouse i) ≠ some .overflow) ∧
      ∀ a i, (c.table.slotAt i).inUse = true → ((c.act a).table.slotAt i).inUse = false →
        (c.table.slotAt i).waiters = 0 := by
  intro c
  have hs : c.Sound := (Sound.start hk).follow acts
  exact ⟨fun sleeper hm => ⟨hs.pinned hm, called_of_asleep (.start hk) rfl hm⟩, hs.waiters,
    Session.rouse_ne_overflow hs.scene, fun _ _ hu hfreed => hs.waiters_of_freed hu hfreed⟩

/-- Two calls are made on behalf of a process, which then ends. -/
def bereaving : List Act :=
  [.serve (.create ⟨7⟩ []), .serve (.transition ⟨0⟩ .running), .serve (.create ⟨0⟩ []),
    .wait ⟨0⟩ .any, .wait ⟨0⟩ (.only ⟨1⟩), .serve (.exit ⟨0⟩ 5)]

theorem callers_of_bereaving :
    ∃ k, Kernel.boot ⟨4, ⟨7⟩⟩ = .ok k ∧
      (((start k).follow bereaving).table.slotAt 1).waiters = 2 ∧
      (((start k).follow bereaving).session.serve (.reap ⟨7⟩ ⟨0⟩)).2.1 =
        .error (.refused (.badStatus ⟨0⟩ .zombie)) ∧
      (((start k).follow bereaving).table.slotAt 1).holds ⟨0⟩ = true ∧
      (start k).Called bereaving ⟨1, ⟨1, ⟨0⟩, .only ⟨1⟩⟩, 0⟩ := by
  have hk : Kernel.boot ⟨4, ⟨7⟩⟩ = .ok _ := rfl
  obtain ⟨hpinned, -⟩ := callers_of_run hk bereaving
  have hcaller := hpinned ⟨1, ⟨1, ⟨0⟩, .only ⟨1⟩⟩, 0⟩ (by decide)
  exact ⟨_, hk, by decide, rfl, hcaller⟩

/-! ## The answer to a call -/

theorem deed?_of_told {a : Act} {i : Nat} {d : Deed} (h : .told d ∈ c.told a i) :
    c.session.deed? a = some d := by
  rw [told] at h
  split at h
  · simp at h
  all_goals
    rename_i hd
    split at h <;> simp at h
    rw [hd, h]

/-- An identity keeps standing for the same process as long as nobody collects that process. -/
theorem life?_act (hs : c.Sound) {p : Pid} {l : Life} (hl : c.life? p = some l) {a : Act}
    (hno : ∀ q code, c.session.deed? a ≠ some (.collected q p code)) :
    (c.act a).life? p = some l := by
  obtain ⟨i, hi, rfl⟩ := Option.map_eq_some_iff.mp hl
  have hp := Table.holds_of_slotOf? hi
  have hu := (Slot.holds_iff.mp hp).1
  have hkept : ((c.act a).table.slotAt i).holds p = true →
      (c.act a).life? p = some ⟨i, c.since i⟩ := by
    intro hafter
    simp only [life?, (hs.act a).table.slotOf?_of_holds hafter, Option.map_some,
      since_act_of_inUse hu]
  have hchange := hs.change a i
  generalize htold : c.told a i = told at hchange
  cases hchange with
  | stays h => exact hkept ((h.holds p).trans hp)
  | born free holds lives => simp [hu] at free
  | ended before lived holds zombie code_eq =>
    obtain rfl := Slot.holds_inj hp before
    exact hkept holds
  | @collected q _ code m before zombie code_eq gone =>
    obtain rfl := Slot.holds_inj hp before
    exact absurd (deed?_of_told (i := i) (by simp [htold])) (hno q code)

theorem life?_follow (hs : c.Sound) {p : Pid} {l : Life} (hl : c.life? p = some l)
    {acts : List Act} (hno : ∀ q code, .collected q p code ∉ c.deeds acts) :
    (c.follow acts).life? p = some l := by
  induction acts generalizing c with
  | nil => exact hl
  | cons a rest ih =>
    refine ih (hs.act a) (life?_act hs hl fun q code hd => ?_) fun q code hmem => ?_
    · exact hno q code (by simp [deeds, hd])
    · exact hno q code (by simp [deeds, hmem])

/-- A call that blocks to wait for one child is made while there is a child of that identity. -/
theorem life?_of_blocked (hs : c.Sound) {q o : Pid} {id : Nat}
    (h : (c.session.wait q (.only o)).2.1 = .blocked id) : ∃ l, c.life? o = some l := by
  obtain ⟨⟨i, hm⟩, -⟩ := Table.find_eq_pending.mp (Session.pending_of_blocked h)
  obtain ⟨p, hp⟩ := Option.isSome_iff_exists.mp hm
  have hmatches := (Slot.matching?_eq_some.mp hp).2.2
  obtain rfl : o = p := by simpa [Target.matches] using hmatches
  have hslot := hs.table.slotOf?_of_holds (Slot.holds_of_matching? hp)
  exact ⟨⟨i, c.since i⟩, by simp [life?, hslot]⟩

/-- A call that blocked to wait for one child, if it is answered with a child, is answered with one
of that identity and with the code which that zombie left. It is the child that had the identity
when the call was made, unless another call collected that one in the meantime. -/
theorem answer_of_run (hk : Kernel.boot config = .ok k) (acts : List Act) {i : Nat}
    {q o p : Pid} {code : ExitCode} {sleeper : Sleeper}
    (hi : ((start k).follow acts).session.sleepers[i]? = some sleeper)
    (htarget : sleeper.waiter.caller.target = .only o)
    (hd : ((start k).follow acts).session.deed? (.rouse i) = some (.collected q p code)) :
    p = o ∧ ((start k).follow acts).table.exitCode? o = some code ∧
      ∃ before after l, acts = before ++ .wait q (.only o) :: after ∧
        (((start k).follow before).session.wait q (.only o)).2.1 = .blocked sleeper.id ∧
        ((start k).follow before).life? o = some l ∧
        ((∀ q' code', .collected q' o code' ∉
            (((start k).follow before).act (.wait q (.only o))).deeds after) →
          ((start k).follow acts).life? o = some l) := by
  have hs : ((start k).follow acts).Sound := (Sound.start hk).follow acts
  obtain ⟨_, hi', hparent, hmatches⟩ := Session.collected_of_rouse hs.scene hd
  obtain rfl := Option.some.inj (hi.symm.trans hi')
  obtain rfl : o = p := by simpa [htarget, Target.matches] using hmatches
  have hturn := Session.turn_act hs.scene (.rouse i)
  rw [hd] at hturn
  obtain ⟨m, hm, -, hcode, -⟩ := hturn
  have hexit : ((start k).follow acts).table.exitCode? o = some code := by
    rw [Table.exitCode?, hs.table.slotOf?_of_holds hm]
    exact hcode
  obtain ⟨before, after, hacts, hblocked, -⟩ :=
    called_of_asleep (.start hk) rfl (List.mem_of_getElem? hi)
  rw [hparent, htarget] at hacts hblocked
  have hbefore : ((start k).follow before).Sound := (Sound.start hk).follow before
  obtain ⟨l, hl⟩ := life?_of_blocked hbefore hblocked
  refine ⟨rfl, hexit, before, after, l, hacts, hblocked, hl, fun hno => ?_⟩
  have hcall : (((start k).follow before).act (.wait q (.only o))).life? o = some l :=
    life?_act hbefore hl fun q' code' hdeed => by simp [Session.deed?, hblocked] at hdeed
  rw [hacts, follow_append]
  exact life?_follow (hbefore.act _) hcall hno

/-- Before a caller that waits for a child has been woken and can look, another call collects that
child, and a new one is given the identity. -/
def delaying : List Act :=
  [.serve (.create ⟨7⟩ []), .serve (.transition ⟨0⟩ .running), .wait ⟨7⟩ (.only ⟨0⟩),
    .serve (.exit ⟨0⟩ 3), .serve (.reap ⟨7⟩ ⟨0⟩), .serve (.create ⟨7⟩ []),
    .serve (.transition ⟨0⟩ .running), .serve (.exit ⟨0⟩ 5)]

/-- The delayed caller is answered with the code of the new child. -/
theorem answer_of_delaying :
    ∃ k, Kernel.boot ⟨2, ⟨7⟩⟩ = .ok k ∧
      ((start k).follow (delaying.take 2)).life? ⟨0⟩ = some ⟨1, 1⟩ ∧
      ((start k).follow delaying).life? ⟨0⟩ = some ⟨1, 6⟩ ∧
      ((start k).follow delaying).session.deed? (.rouse 0) = some (.collected ⟨7⟩ ⟨0⟩ 5) ∧
      (start k).deeds delaying = [.born ⟨0⟩, .ended ⟨0⟩ 3, .collected ⟨7⟩ ⟨0⟩ 3, .born ⟨0⟩,
        .ended ⟨0⟩ 5] :=
  ⟨_, rfl, by decide, by decide, by decide, by decide⟩

end Chronicle

end Lifecycle
