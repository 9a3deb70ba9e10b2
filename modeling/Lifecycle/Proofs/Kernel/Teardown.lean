import Lifecycle.Proofs.Kernel.Calls
import Lifecycle.Proofs.Kernel.Wakeups
/-!
# Teardown

A process is torn down when it is killed and when it ends. From then on a caller blocked on its
behalf has only one way to go: when its sleep is over it learns of the teardown and returns,
whatever has been done to the process, its children and its other callers in the meantime. A mark
lasts until the process is collected, so that a killed process collects nothing more by waiting.
-/

namespace Lifecycle

/-- Whoever is marked stays marked, and who has ended stays so. -/
structure Slot.Endures (s s' : Slot) : Prop where
  killed : s.killed = true → s'.killed = true
  zombie : s.isZombie = true → s'.isZombie = true

/-- The process of a slot has been marked, or it has ended. -/
def Slot.Doomed (s : Slot) : Prop := s.killed = true ∨ s.isZombie = true

namespace Slot

variable {s s' s'' : Slot}

theorem Endures.refl (s : Slot) : s.Endures s := ⟨id, id⟩

theorem Endures.trans (h : s.Endures s') (h' : s'.Endures s'') : s.Endures s'' :=
  ⟨h'.killed ∘ h.killed, h'.zombie ∘ h.zombie⟩

theorem Endures.doomed (h : s.Endures s') (hd : s.Doomed) : s'.Doomed :=
  hd.imp h.killed h.zombie

theorem Continues.endures (h : s.Continues s') (hk : s'.killed = s.killed) : s.Endures s' := by
  constructor
  · intro hs
    rw [hk, hs]
  · intro hs
    rw [h.isZombie, hs]

theorem endures_of_blank (s : Slot) : blank.Endures s :=
  ⟨fun h => by simp [blank] at h, fun h => by simp [blank, isZombie] at h⟩

end Slot

namespace Table

variable {t : Table} {i : Nat} {f : Slot → Slot}

theorem endures_modifySlot (hi : i < t.capacity)
    (h : (t.slotAt i).Endures (f (t.slotAt i))) (j : Nat) :
    (t.slotAt j).Endures ((t.modifySlot i f).slotAt j) := by
  rw [slotAt_modifySlot hi]
  split
  · rename_i hij
    rwa [← hij]
  · exact .refl _

end Table

namespace Scene

variable {x y : Scene} {i : Nat}

/-- A move takes the mark from a slot, or clears a zombie, only by freeing the slot. -/
theorem Move.endures (h : x.Sound) {ds : List Deed} (hm : Move x ds y)
    (hu : (y.table.slotAt i).inUse = true) : (x.table.slotAt i).Endures (y.table.slotAt i) := by
  cases hm with
  | ease inUse goes killed waiters =>
    exact Table.endures_modifySlot (Table.lt_capacity_of_inUse inUse) (goes.endures killed) i
  | @mark _ j alive other =>
    have hj := Table.lt_capacity_of_inUse (Slot.inUse_of_alive alive)
    exact Table.endures_modifySlot hj ⟨fun _ => rfl, id⟩ i
  | @take _ j parent free living =>
    obtain ⟨hj, hfree, -⟩ := Table.freeSlot?_eq_some.mp free
    show (x.table.slotAt i).Endures ((x.table.take _ _ _ _).slotAt i)
    rw [Table.slotAt_take hj]
    split
    · -- A process starts in a blank slot, where there is no mark to lose.
      rename_i hij
      rw [← hij, (h.table.slots j).blank hfree]
      exact Slot.endures_of_blank _
    · exact .refl _
  | @fall _ j p code debts holds alive other self parent adopter =>
    show (x.table.slotAt i).Endures ((x.table.fall j p code).slotAt i)
    by_cases hij : j = i
    · subst hij
      rw [h.ranked.slotAt_fall_self holds]
      exact ⟨id, fun _ => rfl⟩
    · rw [Table.slotAt_fall_eq (Table.lt_capacity_of_holds holds) hij]
      exact ⟨id, id⟩
  | @wake k blocked j owed =>
    exact ((k.continues_wake j).slots i).endures (k.slotAt_wake j i).1
  | @drop _ j p q code remains zombie empty parent code_eq =>
    have hslot : (x.table.vacate j p).slotAt i = _ :=
      Table.slotAt_drop (Table.lt_capacity_of_holds remains) i
    change ((x.table.vacate j p).slotAt i).inUse = true at hu
    show (x.table.slotAt i).Endures ((x.table.vacate j p).slotAt i)
    rw [hslot] at hu ⊢
    split at hu
    · simp at hu
    · rename_i hij
      rw [if_neg hij]
      exact .refl _
  | leave debts goes killed waiters parent =>
    have hj := Table.lt_capacity_of_waiters (by rw [waiters]; omega)
    exact Table.endures_modifySlot hj (goes.endures killed) i
  | rest holds alive unkilled pending goes killed waiters =>
    exact Table.endures_modifySlot (Table.lt_capacity_of_holds holds) (goes.endures killed) i

theorem Moves.endures_of_continues (h : x.Sound) (hm : Moves x [] y)
    (hu : (y.table.slotAt i).inUse = true) : (x.table.slotAt i).Endures (y.table.slotAt i) := by
  generalize hds : ([] : List Deed) = ds at hm
  induction hm with
  | refl => exact .refl _
  | @step x y z ds ds' hm hs ih =>
    obtain ⟨rfl, rfl⟩ := List.append_eq_nil_iff.mp hds.symm
    have hmid : (y.table.slotAt i).inUse = true := by rwa [(hs.continues.slots i).inUse] at hu
    exact (hm.endures h hmid).trans (ih (h.move hm) hu rfl)

/-- An act does one deed at most. Hence a slot that is in use at its end has not changed hands. -/
theorem Moves.endures (h : x.Sound) {d : Option Deed} (hm : Moves x d.toList y)
    (hu : (y.table.slotAt i).inUse = true) : (x.table.slotAt i).Endures (y.table.slotAt i) := by
  cases d with
  | none => exact hm.endures_of_continues h hu
  | some d =>
    obtain ⟨x', y', hbefore, hdeed, hafter⟩ := Moves.split hm
    have hx' := h.moves hbefore
    have hu' : (y'.table.slotAt i).inUse = true := by rwa [(hafter.continues.slots i).inUse] at hu
    have hlast := hafter.endures_of_continues (hx'.move hdeed) hu
    have hfirst : (x.table.slotAt i).Endures (x'.table.slotAt i) := by
      by_cases hfree : (x'.table.slotAt i).inUse = true
      · exact hbefore.endures_of_continues h hfree
      · have hblank : (x.table.slotAt i).inUse = false := by
          rw [← (hbefore.continues.slots i).inUse]
          simpa using hfree
        rw [(h.table.slots i).blank hblank]
        exact Slot.endures_of_blank _
    exact (hfirst.trans (hdeed.endures hx' hu')).trans hlast

end Scene

namespace Kernel

variable {k : Kernel} {w : Waiter} {blocked : Multiset Waiter}

theorem look_of_killed {c : Caller} (h : (k.table.slotAt c.slot).killed = true) :
    k.look c = k.refuse .killed := by
  rw [look, if_pos h]

/-- A caller asks for the mark before it looks, and for the end of its process before that. -/
theorem resume_of_doomed (h : Scene.Sound ⟨k, w ::ₘ blocked, []⟩)
    (hd : (k.table.slotAt w.caller.slot).Doomed) :
    (k.resume w.caller).result = .error (.refused .killed) := by
  obtain ⟨left, hleft, ⟨-, hr⟩ | ⟨ha, status, -, hr⟩⟩ := resume_cases h <;> rw [hr]
  · rfl
  · have hkilled : (k.table.slotAt w.caller.slot).killed = true := by
      apply hd.resolve_right
      rw [Slot.not_zombie_of_alive ha]
      simp
    have hi : w.caller.slot < k.table.capacity := Table.lt_capacity_of_inUse (Slot.inUse_of_alive ha)
    rw [look_of_killed]
    · rfl
    · show ((k.table.modifySlot w.caller.slot _).slotAt w.caller.slot).killed = true
      rw [Table.slotAt_modifySlot hi, if_pos rfl]
      exact hkilled

theorem kill_cases (k : Kernel) (p : Pid) :
    (∃ why, k.kill p = k.refuse why) ∨
      ∃ i, k.table.slotOf? p = some i ∧ (k.table.slotAt i).status.isAlive = true ∧
        k.kill p = ⟨.ok (), (Kernel.mk (k.table.modifySlot i fun s => { s with killed := true })
          k.channels).wake i, [.killed p]⟩ := by
  rw [kill]
  cases ha : k.table.aliveSlot p with
  | error why => exact .inl ⟨why, rfl⟩
  | ok i =>
    obtain ⟨hs, halive⟩ := Table.aliveSlot_eq_ok ha
    dsimp only
    split
    · exact .inl ⟨_, rfl⟩
    · exact .inr ⟨i, hs, halive, rfl⟩

theorem killed_of_kill {p : Pid} (h : (k.kill p).result = .ok ()) :
    ∃ i, ((k.kill p).kernel.table.slotAt i).holds p = true ∧
      ((k.kill p).kernel.table.slotAt i).killed = true := by
  rcases k.kill_cases p with ⟨why, hr⟩ | ⟨i, hs, halive, hr⟩
  · simp [hr, refuse, fail] at h
  · have hholds := Table.holds_of_slotOf? hs
    have hi := Table.lt_capacity_of_holds hholds
    have hslot := Table.slotAt_modifySlot hi (fun s => { s with killed := true }) i
    rw [if_pos rfl] at hslot
    rw [hr]
    refine ⟨i, ?_, ?_⟩
    · rw [((continues_wake _ i).slots i).holds]
      show ((k.table.modifySlot i _).slotAt i).holds p = true
      rw [hslot]
      exact hholds
    · rw [(slotAt_wake _ i i).1]
      show ((k.table.modifySlot i _).slotAt i).killed = true
      rw [hslot]

theorem tryWait_of_killed {p : Pid} {i : Nat} (hs : k.table.slotOf? p = some i)
    (hk : (k.table.slotAt i).killed = true) (target : Target) :
    ∃ why, k.tryWait p target = k.refuse why := by
  unfold tryWait
  cases ha : k.table.aliveSlot p with
  | error why => exact ⟨why, rfl⟩
  | ok j =>
    obtain rfl : i = j := by simpa [hs] using (Table.aliveSlot_eq_ok ha).1
    simp only [hk, if_true]
    exact ⟨_, rfl⟩

theorem wait_of_killed {p : Pid} {i : Nat} (hs : k.table.slotOf? p = some i)
    (hk : (k.table.slotAt i).killed = true) (target : Target) :
    ∃ why, k.wait p target = k.refuse why := by
  unfold wait
  cases ha : k.table.aliveSlot p with
  | error why => exact ⟨why, rfl⟩
  | ok j =>
    obtain rfl : i = j := by simpa [hs] using (Table.aliveSlot_eq_ok ha).1
    exact ⟨_, look_of_killed hk⟩

end Kernel

namespace Session

variable {s : Session}

theorem endures_act (h : s.scene.Sound) {a : Act} {i : Nat}
    (hu : ((s.act a).kernel.table.slotAt i).inUse = true) :
    (s.kernel.table.slotAt i).Endures ((s.act a).kernel.table.slotAt i) :=
  (moves_act h a).endures h hu

/-! ## The numbers of callers -/

/-- No two blocked callers have one number, and the next number is nobody's. -/
structure Numbered (s : Session) : Prop where
  nodup : (s.sleepers.map Sleeper.id).Nodup
  id_lt : ∀ sleeper ∈ s.sleepers, sleeper.id < s.nextId

theorem Numbered.act (h : s.Numbered) (a : Act) : (s.act a).Numbered := by
  constructor
  · cases a with
    | serve r => exact h.nodup
    | wait parent target =>
      simp only [Session.act, wait]
      split
      · exact h.nodup
      · exact h.nodup
      · rw [List.map_append, List.map_singleton]
        apply List.nodup_append.mpr
        refine ⟨h.nodup, List.nodup_singleton _, ?_⟩
        intro n hn m hm heq
        obtain ⟨sleeper, hs, rfl⟩ := List.mem_map.mp hn
        have hlt := h.id_lt sleeper hs
        rw [List.mem_singleton.mp hm] at heq
        exact absurd heq (Nat.ne_of_lt hlt)
    | rouse i =>
      have herase : ((s.sleepers.eraseIdx i).map Sleeper.id).Nodup :=
        ((List.eraseIdx_sublist _ _).map _).nodup h.nodup
      simp only [Session.act, rouse]
      split
      · exact h.nodup
      · rename_i old hold
        split
        · exact herase
        · exact herase
        · -- The caller sleeps again under its old number.
          obtain ⟨hlt, rfl⟩ := List.getElem?_eq_some_iff.mp hold
          have hids : ∀ w, (s.sleepers.set i ⟨s.sleepers[i].id, w⟩).map Sleeper.id =
              s.sleepers.map Sleeper.id := by
            intro w
            have hlt' : i < (s.sleepers.map Sleeper.id).length := by simpa using hlt
            have hi : s.sleepers[i].id = (s.sleepers.map Sleeper.id)[i] := by
              rw [List.getElem_map]
            rw [List.map_set, hi, List.set_getElem_self]
          dsimp only
          rw [hids]
          exact h.nodup
  · intro sleeper hm
    have hle := Chronicle.nextId_le s a
    rcases Chronicle.sleeper_act hm with ⟨old, hold, hid, -⟩ | ⟨rfl, hid, -, -⟩
    · rw [← hid]
      exact (h.id_lt old hold).trans_le hle
    · rw [hid]
      simp only [Session.act, wait]
      split <;> simp

theorem Numbered.not_mem_erase (h : s.Numbered) {i : Nat} (hi : i < s.sleepers.length) :
    ∀ other ∈ s.sleepers.eraseIdx i, other.id ≠ s.sleepers[i].id := by
  have hperm := (List.getElem_cons_eraseIdx_perm hi).map Sleeper.id
  have hnodup := hperm.nodup_iff.mpr h.nodup
  rw [List.map_cons, List.nodup_cons] at hnodup
  intro other hm heq
  apply hnodup.1
  rw [← heq]
  exact List.mem_map_of_mem hm

/-! ## The end of a doomed caller's sleep -/

variable {sleeper : Sleeper} {i : Nat}

/-- A caller of a torn down process returns when its sleep ends, and leaves with nothing. -/
theorem rouse_of_doomed (h : s.scene.Sound) (hi : s.sleepers[i]? = some sleeper)
    (hd : (s.kernel.table.slotAt sleeper.waiter.caller.slot).Doomed) :
    (s.rouse i).2.returned = [(sleeper.id, .error (.refused .killed))] ∧
      (s.rouse i).1.sleepers = s.sleepers.eraseIdx i ∧ s.deed? (.rouse i) = none := by
  obtain ⟨hlt, rfl⟩ := List.getElem?_eq_some_iff.mp hi
  rw [scene_eq_cons hlt] at h
  have hr := Kernel.resume_of_doomed h hd
  simp [rouse, deed?, hi, hr]

theorem isWoken_of_doomed (h : s.scene.Prompt) (hm : sleeper ∈ s.sleepers)
    (hfew : s.kernel.channels.count sleeper.waiter.caller.slot < 2 ^ 64)
    (hd : (s.kernel.table.slotAt sleeper.waiter.caller.slot).Doomed) :
    s.isWoken sleeper = true := by
  by_contra hasleep
  have hawaits := awaits_of_asleep h hm hfew (by simpa using hasleep)
  rcases hd with hkilled | hz
  · rw [hawaits.unkilled] at hkilled
    simp at hkilled
  · rw [Slot.not_zombie_of_alive hawaits.alive] at hz
    simp at hz

theorem doomed_of_teardown (h : s.scene.Sound) {p : Pid} {r : Request}
    (hr : r = .kill p ∨ ∃ code, r = .exit p code) (hok : (s.serve r).2.1 = .ok .done) :
    ∃ i, ((s.act (.serve r)).kernel.table.slotAt i).holds p = true ∧
      ((s.act (.serve r)).kernel.table.slotAt i).Doomed ∧
      (r = .kill p → ((s.act (.serve r)).kernel.table.slotAt i).killed = true) := by
  rcases hr with rfl | ⟨code, rfl⟩
  · have hkill : (s.kernel.kill p).result = .ok () := by
      change (s.kernel.kill p).result.map _ = .ok _ at hok
      cases hr : (s.kernel.kill p).result with
      | error fault => simp [hr, Except.map] at hok
      | ok _ => rfl
    obtain ⟨i, hp, hkilled⟩ := Kernel.killed_of_kill hkill
    exact ⟨i, hp, .inl hkilled, fun _ => hkilled⟩
  · have hturn := turn_act h (.serve (.exit p code))
    simp only [deed?, hok, Request.deed?] at hturn
    obtain ⟨i, -, -, hp, hz, -⟩ := hturn
    exact ⟨i, hp, .inr hz, fun hf => by simp at hf⟩

/-- A process that is marked collects by name only. -/
theorem reap_of_killed (h : s.scene.Sound) {p child : Pid} {code : ExitCode} {j : Nat}
    (hs : s.kernel.table.slotOf? p = some j) (hk : (s.kernel.table.slotAt j).killed = true) {a : Act}
    (hd : s.deed? a = some (.collected p child code)) : a = .serve (.reap p child) := by
  cases a with
  | serve r =>
    simp only [deed?, serve] at hd
    cases hres : (s.kernel.serve r).result with
    | error fault => simp [hres] at hd
    | ok answer =>
      simp only [hres] at hd
      unfold Request.deed? at hd
      split at hd <;> simp at hd
      · obtain ⟨rfl, rfl, rfl⟩ := hd
        rename_i target _ _
        obtain ⟨why, hr⟩ := Kernel.tryWait_of_killed hs hk target
        simp [Kernel.serve, hr, Outcome.map, Kernel.refuse, Kernel.fail, Except.map] at hres
      · obtain ⟨rfl, rfl, -⟩ := hd
        rfl
  | wait parent target =>
    simp only [deed?, wait] at hd
    by_cases hp : parent = p
    · subst hp
      obtain ⟨why, hr⟩ := Kernel.wait_of_killed hs hk target
      simp [hr, Kernel.refuse, Kernel.fail] at hd
    · cases hres : (s.kernel.wait parent target).result with
      | error fault => simp [hres] at hd
      | ok waiting => cases waiting <;> simp [hres, hp] at hd
  | rouse i =>
    obtain ⟨sleeper, hi, rfl, -⟩ := collected_of_rouse h hd
    have hblocked := mem_blocked.mpr ⟨sleeper, List.mem_of_getElem? hi, rfl⟩
    have hslot := h.table.slotOf?_of_holds (h.pinned _ hblocked).1
    obtain rfl := Option.some.inj (hs.symm.trans hslot)
    simp [(rouse_of_doomed h hi (.inl hk)).2.2] at hd

end Session

namespace Chronicle

variable {c : Chronicle} {config : Config} {k : Kernel}

theorem session_follow (c : Chronicle) (acts : List Act) :
    (c.follow acts).session = c.session.follow acts := by
  induction acts generalizing c with
  | nil => rfl
  | cons a rest ih => exact ih (c.act a)

theorem reachable_follow (hk : Kernel.boot config = .ok k) (acts : List Act) :
    Session.Reachable config ((start k).follow acts).session := by
  rw [session_follow]
  exact (Session.Reachable.boot hk).follow acts

theorem numbered_start (k : Kernel) : (start k).session.Numbered := by
  constructor
  · exact List.nodup_nil
  · intro sleeper hm
    simp [start, Session.start] at hm

theorem numbered_follow (h : c.session.Numbered) (acts : List Act) :
    (c.follow acts).session.Numbered :=
  keep_follow (P := fun c => c.session.Numbered) (fun hc => hc.act) h acts

/-- A number has been given out, and no blocked caller has it any more. -/
def Absent (c : Chronicle) (id : Nat) : Prop :=
  id < c.session.nextId ∧ ∀ sleeper ∈ c.session.sleepers, sleeper.id ≠ id

theorem Absent.act {id : Nat} (h : c.Absent id) (a : Act) : (c.act a).Absent id := by
  refine ⟨h.1.trans_le (nextId_le c.session a), ?_⟩
  intro sleeper hm
  rcases sleeper_act hm with ⟨old, hold, heq, -⟩ | ⟨-, heq, -, -⟩
  · rw [← heq]
    exact h.2 old hold
  · have hlt := h.1
    omega

/-- The caller with a number, while it is blocked, speaks for a torn down process. -/
def Condemned (c : Chronicle) (id : Nat) : Prop :=
  id < c.session.nextId ∧ ∀ sleeper ∈ c.session.sleepers, sleeper.id = id →
    (c.table.slotAt sleeper.waiter.caller.slot).Doomed

theorem Condemned.act {id : Nat} (hs : c.Sound) (h : c.Condemned id) (a : Act) :
    (c.act a).Condemned id := by
  refine ⟨h.1.trans_le (nextId_le c.session a), ?_⟩
  intro sleeper hm hid
  rcases sleeper_act hm with ⟨old, hold, heq, hcaller⟩ | ⟨-, heq, -, -⟩
  · have hu := (Slot.holds_iff.mp ((hs.act a).pinned hm)).1
    have hd := h.2 old hold (heq.trans hid)
    rw [hcaller] at hd
    exact (Session.endures_act hs.scene hu).doomed hd
  · have hlt := h.1
    omega

theorem Condemned.follow {id : Nat} (hs : c.Sound) (h : c.Condemned id) (acts : List Act) :
    (c.follow acts).Condemned id :=
  (keep_follow (P := fun c => c.Sound ∧ c.Condemned id)
    (fun hc a => ⟨hc.1.act a, hc.2.act hc.1 a⟩) ⟨hs, h⟩ acts).2

/-- The caller with a number is woken, and the end of its sleep is the end of its call. It is told of
the teardown, collects nothing and is never blocked again. -/
def Dismisses (c : Chronicle) (id : Nat) : Prop :=
  ∀ i sleeper, c.session.sleepers[i]? = some sleeper → sleeper.id = id →
    (c.session.kernel.channels.count sleeper.waiter.caller.slot < 2 ^ 64 →
        c.session.isWoken sleeper = true) ∧
      (c.session.rouse i).2.returned = [(id, .error (.refused .killed))] ∧
      c.session.deed? (.rouse i) = none ∧
      ∀ later, ∀ other ∈ ((c.act (.rouse i)).follow later).session.sleepers, other.id ≠ id

theorem Condemned.dismisses {id : Nat} (hs : c.Sound) (hp : c.session.scene.Prompt)
    (hn : c.session.Numbered) (h : c.Condemned id) : c.Dismisses id := by
  intro i sleeper hi hid
  have hm := List.mem_of_getElem? hi
  have hd := h.2 sleeper hm hid
  obtain ⟨hreturned, hsleepers, hdeed⟩ := Session.rouse_of_doomed hs.scene hi hd
  refine ⟨fun hfew => Session.isWoken_of_doomed hp hm hfew hd, by rw [hreturned, hid], hdeed, ?_⟩
  have hgone : (c.act (.rouse i)).Absent id := by
    refine ⟨h.1.trans_le (nextId_le c.session _), ?_⟩
    intro other hother
    change other ∈ (c.session.rouse i).1.sleepers at hother
    obtain ⟨hlt, rfl⟩ := List.getElem?_eq_some_iff.mp hi
    rw [hsleepers] at hother
    rw [← hid]
    exact hn.not_mem_erase hlt other hother
  intro later
  exact (keep_follow (P := fun c => c.Absent id) (fun hc => hc.act) hgone later).2

/-- A blocked caller stays as it is until its own sleep ends. -/
theorem sleeper_follow {sleeper : Sleeper} (h : sleeper ∈ c.session.sleepers) (acts : List Act) :
    sleeper ∈ (c.follow acts).session.sleepers ∨ ∃ before i after,
      acts = before ++ .rouse i :: after ∧
        (c.follow before).session.sleepers[i]? = some sleeper := by
  induction acts generalizing c with
  | nil => exact .inl h
  | cons a rest ih =>
    rcases Session.sleeper_stays h a with hm | ⟨i, rfl, hi⟩
    · exact (ih (c := c.act a) hm).imp_right fun hx => by
        obtain ⟨before, i, after, rfl, hi⟩ := hx
        exact ⟨a :: before, i, after, rfl, hi⟩
    · exact .inr ⟨[], i, rest, rfl, hi⟩

/-- The mark of a process lasts as long as nobody collects it. -/
theorem killed_follow (hs : c.Sound) {p : Pid} {l : Life} (hl : c.life? p = some l)
    (hk : (c.table.slotAt l.slot).killed = true) {acts : List Act}
    (hno : ∀ q code, .collected q p code ∉ c.deeds acts) :
    ((c.follow acts).table.slotAt l.slot).killed = true := by
  induction acts generalizing c with
  | nil => exact hk
  | cons a rest ih =>
    have hl' : (c.act a).life? p = some l :=
      life?_act hs hl fun q code hd => hno q code (by simp [deeds, hd])
    obtain ⟨i, hi, hlife⟩ := Option.map_eq_some_iff.mp hl'
    have hslot : i = l.slot := congrArg Life.slot hlife
    have hu := (Slot.holds_iff.mp (Table.holds_of_slotOf? hi)).1
    rw [hslot] at hu
    refine ih (hs.act a) hl' ((Session.endures_act hs.scene hu).killed hk) ?_
    intro q code hmem
    exact hno q code (by simp [deeds, hmem])

theorem condemned_of_teardown (hs : c.Sound) (hn : c.session.Numbered) {p : Pid} {r : Request}
    (hr : r = .kill p ∨ ∃ code, r = .exit p code) (hok : (c.session.serve r).2.1 = .ok .done)
    {sleeper : Sleeper} (hm : sleeper ∈ c.session.sleepers)
    (hp : sleeper.waiter.caller.parent = p) : (c.act (.serve r)).Condemned sleeper.id := by
  refine ⟨(hs.id_lt sleeper hm).trans_le (nextId_le c.session _), ?_⟩
  intro other hother hid
  -- Teardown itself blocks and releases nobody, so the caller with this number is still the same.
  obtain rfl := List.inj_on_of_nodup_map hn.nodup hother hm hid
  obtain ⟨i, hi, hd, -⟩ := Session.doomed_of_teardown hs.scene hr hok
  have hpinned := (hs.act (.serve r)).pinned hother
  rw [hp] at hpinned
  have hslot := (hs.act (.serve r)).table.holds_unique _ _ p hpinned hi
  rw [hslot]
  exact hd

/-- Once a process has been killed or has ended, whoever was blocked on its behalf stays blocked
until its own sleep ends, is woken, and returns then with the answer that the process was torn down.
Until a killed process is collected it stays marked, and it collects nothing but by name. -/
theorem teardown_of_run (hk : Kernel.boot config = .ok k) (before : List Act) {p : Pid} {r : Request}
    (hr : r = .kill p ∨ ∃ code, r = .exit p code)
    (hok : (((start k).follow before).session.serve r).2.1 = .ok .done) (after : List Act) :
    let c := ((start k).follow before).act (.serve r)
    (∀ sleeper ∈ ((start k).follow before).session.sleepers, sleeper.waiter.caller.parent = p →
      (sleeper ∈ (c.follow after).session.sleepers ∨ ∃ earlier i later,
        after = earlier ++ .rouse i :: later ∧
          (c.follow earlier).session.sleepers[i]? = some sleeper) ∧
        (c.follow after).Dismisses sleeper.id) ∧
      (r = .kill p → (∀ q code, .collected q p code ∉ c.deeds after) →
        (c.follow after).life? p = c.life? p ∧
          (∃ i, (c.follow after).table.slotOf? p = some i ∧
            ((c.follow after).table.slotAt i).killed = true) ∧
          ∀ a child code, (c.follow after).session.deed? a = some (.collected p child code) →
            a = .serve (.reap p child)) := by
  intro c
  have hs : ((start k).follow before).Sound := (Sound.start hk).follow before
  have hn : ((start k).follow before).session.Numbered :=
    numbered_follow (numbered_start k) before
  have hafter : (c.follow after).Sound := (hs.act _).follow after
  constructor
  · intro sleeper hm hp
    have hreach := reachable_follow hk (before ++ .serve r :: after)
    rw [follow_append] at hreach
    have hcondemned := condemned_of_teardown hs hn hr hok hm hp
    refine ⟨sleeper_follow (c := c) hm after, ?_⟩
    apply (hcondemned.follow (hs.act _) after).dismisses hafter hreach.prompt
    exact numbered_follow (c := c) (hn.act (.serve r)) after
  · intro hkill hno
    obtain ⟨i, hi, -, hkilled⟩ := Session.doomed_of_teardown hs.scene hr hok
    have hl : c.life? p = some ⟨i, c.since i⟩ := by
      have hslot : c.table.slotOf? p = some i := (hs.act _).table.slotOf?_of_holds hi
      simp only [life?, hslot, Option.map_some]
    have hl' : (c.follow after).life? p = some ⟨i, c.since i⟩ := life?_follow (hs.act _) hl hno
    have hmark := killed_follow (hs.act _) hl (hkilled hkill) hno
    obtain ⟨j, hj, hlife⟩ := Option.map_eq_some_iff.mp hl'
    obtain rfl : j = i := congrArg Life.slot hlife
    refine ⟨hl'.trans hl.symm, ⟨j, hj, hmark⟩, ?_⟩
    intro a child code hd
    exact Session.reap_of_killed hafter.scene hj hmark hd

/-- Two calls are made on behalf of a process with two children. One child ends and wakes both, and
the process is killed before they run. -/
def interrupting : List Act :=
  [.serve (.create ⟨7⟩ []), .serve (.transition ⟨0⟩ .running), .serve (.create ⟨0⟩ []),
    .serve (.transition ⟨1⟩ .running), .serve (.create ⟨0⟩ []), .wait ⟨0⟩ .any,
    .wait ⟨0⟩ (.only ⟨2⟩), .serve (.exit ⟨1⟩ 5)]

/-- The first caller finds the zombie and does not collect it; neither does the other one, after the
process itself has ended with its mark. -/
theorem teardown_of_interrupting :
    ∃ k c, Kernel.boot ⟨4, ⟨7⟩⟩ = .ok k ∧
      (((start k).follow interrupting).session.serve (.kill ⟨0⟩)).2.1 = .ok .done ∧
      c = ((start k).follow interrupting).act (.serve (.kill ⟨0⟩)) ∧
      c.table.find ⟨0⟩ .any = .found 2 ⟨1⟩ 5 ∧ c.Dismisses 0 ∧
      (c.follow [.rouse 0, .serve (.exit ⟨0⟩ 3)]).Dismisses 1 ∧
      (c.follow [.rouse 0, .serve (.exit ⟨0⟩ 3)]).session.sleepers.map (·.id) = [1] ∧
      ∃ i, (c.follow [.rouse 0, .serve (.exit ⟨0⟩ 3)]).table.slotOf? ⟨0⟩ = some i ∧
        ((c.follow [.rouse 0, .serve (.exit ⟨0⟩ 3)]).table.slotAt i).killed = true := by
  have hk : Kernel.boot ⟨4, ⟨7⟩⟩ = .ok _ := rfl
  obtain ⟨hfirst, -⟩ := teardown_of_run hk interrupting (p := ⟨0⟩) (.inl rfl) rfl []
  obtain ⟨hsecond, hmark⟩ :=
    teardown_of_run hk interrupting (p := ⟨0⟩) (.inl rfl) rfl [.rouse 0, .serve (.exit ⟨0⟩ 3)]
  refine ⟨_, _, hk, rfl, rfl, by decide, (hfirst ⟨0, ⟨1, ⟨0⟩, .any⟩, 0⟩ (by decide) rfl).2,
    (hsecond ⟨1, ⟨1, ⟨0⟩, .only ⟨2⟩⟩, 0⟩ (by decide) rfl).2, by decide, (hmark rfl ?_).2.1⟩
  intro q code hm
  change _ ∈ [Deed.ended ⟨0⟩ 3] at hm
  simp at hm

end Chronicle

end Lifecycle
