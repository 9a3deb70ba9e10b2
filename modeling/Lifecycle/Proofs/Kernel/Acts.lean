import Lifecycle.Proofs.Kernel.Steps
/-!
# Acts as moves

The two halves of a wait are moves of the caller: it leaves its slot, collects a child, or goes to
sleep again. With that, each act on a session is a run of moves, and what moves keep holds of every
session that comes about.
-/

namespace Lifecycle

namespace Outcome

/-- What a wait that got so far has done on behalf of a process. -/
def deeds (o : Outcome Waiting) (parent : Pid) : List Deed :=
  match o.result with
  | .ok (.collected p code) => [.collected parent p code]
  | _ => []

/-- The blocked callers when a wait got so far, given the others. -/
def blockedBeside (o : Outcome Waiting) (others : Multiset Waiter) : Multiset Waiter :=
  match o.result with
  | .ok (.asleep w) => w ::ₘ others
  | _ => others

end Outcome

namespace Kernel

open Outcome

variable {x : Scene}

/-- Looking is refused, or a move. -/
theorem moves_look (h : x.Sound) {c : Caller} (hp : (x.table.slotAt c.slot).holds c.parent = true)
    (ha : (x.table.slotAt c.slot).status.isAlive = true) :
    Scene.Moves x ((x.kernel.look c).deeds c.parent)
      ⟨(x.kernel.look c).kernel, (x.kernel.look c).blockedBeside x.blocked, x.owed⟩ := by
  rcases x.kernel.look_cases c with ⟨why, hr⟩ | ⟨i, p, code, hf, hr⟩ | ⟨hkilled, hf, hr⟩ <;> rw [hr]
  · exact .refl
  · have hled := led_collect_found h hf
    rw [Led] at hled
    simp only [Outcome.map, deeds, blockedBeside]
    cases hc : (x.kernel.collect c.parent i p code).result with
    | error fault => simpa [hc, Except.map] using hled
    | ok c' =>
      rw [hc] at hled
      simpa [Except.map] using hled
  · have hrest : Scene.Move x [] ⟨x.rewrite c.slot fun s =>
        { s with
          waiters := s.waiters + 1
          status := if s.status = .running then .sleeping else s.status },
        ⟨c, x.kernel.channels.ticket c.slot⟩ ::ₘ x.blocked, x.owed⟩ := by
      refine .rest hp ha hkilled hf (.of_alive ha ?_ rfl rfl rfl) rfl rfl
      dsimp only
      split
      · rfl
      · exact ha
    exact hrest.moves

theorem moves_wait (h : x.Sound) (parent : Pid) (target : Target) :
    Scene.Moves x ((x.kernel.wait parent target).deeds parent)
      ⟨(x.kernel.wait parent target).kernel,
        (x.kernel.wait parent target).blockedBeside x.blocked, x.owed⟩ := by
  rw [wait]
  cases hs : x.kernel.table.aliveSlot parent with
  | error why =>
    simp only [refuse, fail, deeds, blockedBeside]
    exact .refl
  | ok i =>
    obtain ⟨hslot, ha⟩ := Table.aliveSlot_eq_ok hs
    exact moves_look (c := ⟨i, parent, target⟩) h (Table.holds_of_slotOf? hslot) ha

variable {k : Kernel} {w : Waiter} {blocked : Multiset Waiter}

/-- The last caller to leave a zombie wakes the zombie's parent. -/
private theorem moves_leaveZombie (h : Scene.Sound ⟨k, w ::ₘ blocked, []⟩) {left : Nat}
    (hleft : (k.table.slotAt w.caller.slot).waiters = left + 1)
    (hz : (k.table.slotAt w.caller.slot).isZombie = true) :
    Scene.Moves ⟨k, w ::ₘ blocked, []⟩ [] ⟨k.leaveZombie w.caller.slot left, blocked, []⟩ := by
  have hgoes : (k.table.slotAt w.caller.slot).Continues
      { k.table.slotAt w.caller.slot with waiters := left, status := .zombie } :=
    ⟨rfl, rfl, rfl, fun hf => by simp [Slot.inUse_of_zombie hz] at hf,
      .inl ⟨(Slot.isZombie_iff.mp hz).symm, rfl⟩⟩
  rw [leaveZombie]
  split
  · rename_i h0
    have hi0 := h.table.ne_zero_of_zombie hz
    obtain ⟨q, hq, j, hj, -⟩ := h.table.parent_alive _ hi0 (Slot.inUse_of_zombie hz)
    have hleave : Scene.Move ⟨k, w ::ₘ blocked, []⟩ []
        ⟨k.leave w.caller.slot left .zombie, blocked, [j]⟩ :=
      .leave [j] hgoes rfl hleft fun _ _ r m hr hm => by
        rw [hq] at hr
        rw [← Option.some.inj hr] at hm
        rw [h.table.holds_unique m j q hm hj]
        simp
    have hs := h.move hleave
    have hj' : ((k.leave w.caller.slot left .zombie).table.slotAt j).holds q = true := by
      rw [(hleave.continues.slots j).holds]
      exact hj
    rw [hq, wakeProcess_some (hs.table.slotOf?_of_holds hj')]
    exact .step hleave (.step .wake .refl)
  · rename_i h0
    exact (Scene.Move.leave [] hgoes rfl hleft fun he => absurd he h0).moves

/-- A caller whose sleep ends leaves a zombie, or it leaves a living process and looks again. -/
theorem resume_cases (h : Scene.Sound ⟨k, w ::ₘ blocked, []⟩) :
    ∃ left, (k.table.slotAt w.caller.slot).waiters = left + 1 ∧
      ((k.table.slotAt w.caller.slot).isZombie = true ∧
          k.resume w.caller = (k.leaveZombie w.caller.slot left).refuse .killed ∨
        (k.table.slotAt w.caller.slot).status.isAlive = true ∧ ∃ status : Status,
          status.isAlive = true ∧
            k.resume w.caller = (k.leave w.caller.slot left status).look w.caller) := by
  have hmem : w ∈ w ::ₘ blocked := Multiset.mem_cons_self w blocked
  obtain ⟨hp, hused⟩ := h.pinned w hmem
  obtain ⟨left, hleft⟩ := Nat.exists_eq_succ_of_ne_zero (h.waiters_pos hmem)
  have hu := (Slot.holds_iff.mp hp).1
  change (k.table.slotAt w.caller.slot).waiters = left + 1 at hleft
  refine ⟨left, hleft, ?_⟩
  rw [resume]
  rw [hleft]
  dsimp only
  cases hst : (k.table.slotAt w.caller.slot).status with
  | unused =>
    rw [Slot.inUse_iff, hst] at hu
    exact absurd rfl hu
  | used => exact absurd hst hused
  | zombie => exact .inl ⟨Slot.isZombie_iff.mpr hst, rfl⟩
  | runnable => exact .inr ⟨rfl, .running, rfl, rfl⟩
  | running => exact .inr ⟨rfl, .running, rfl, rfl⟩
  | sleeping => exact .inr ⟨rfl, .running, rfl, rfl⟩

theorem move_leave {left : Nat} {status : Status}
    (hleft : (k.table.slotAt w.caller.slot).waiters = left + 1)
    (ha : (k.table.slotAt w.caller.slot).status.isAlive = true) (hs : status.isAlive = true) :
    Scene.Move ⟨k, w ::ₘ blocked, []⟩ [] ⟨k.leave w.caller.slot left status, blocked, []⟩ := by
  refine .leave [] (.of_alive ha hs rfl rfl rfl) rfl hleft fun _ hz => ?_
  rw [Slot.not_zombie_of_alive ha] at hz
  simp at hz

/-- The end of a sleep takes the caller off its slot; the rest is a look. -/
theorem moves_resume (h : Scene.Sound ⟨k, w ::ₘ blocked, []⟩) :
    Scene.Moves ⟨k, w ::ₘ blocked, []⟩ ((k.resume w.caller).deeds w.caller.parent)
      ⟨(k.resume w.caller).kernel, (k.resume w.caller).blockedBeside blocked, []⟩ := by
  obtain ⟨left, hleft, ⟨hz, hr⟩ | ⟨ha, status, hs, hr⟩⟩ := resume_cases h
  · rw [hr]
    simp only [refuse, fail, deeds, blockedBeside]
    exact moves_leaveZombie h hleft hz
  · have hleave : Scene.Move ⟨k, w ::ₘ blocked, []⟩ [] _ := move_leave hleft ha hs
    have hc := hleave.continues.slots w.caller.slot
    have hp := (h.pinned w (Multiset.mem_cons_self w blocked)).1
    rw [hr]
    exact .step hleave (moves_look (h.move hleave) (by rw [hc.holds]; exact hp) (hc.alive ha))

end Kernel

/-- What a request did, told by its answer. -/
def Request.deed? : Request → Answer → Option Deed
  | .allocate _, .pid p | .create _ _, .pid p | .spawn _ _, .pid p | .fork _, .pid p =>
    some (.born p)
  | .exit p code, .done => some (.ended p code)
  | .tryWait q _, .collected (some (p, code)) => some (.collected q p code)
  | .reap q p, .code code => some (.collected q p code)
  | _, _ => none

namespace Session

/-- What an act did, told by what it returned. -/
def deed? (s : Session) : Act → Option Deed
  | .serve r =>
    match (s.serve r).2.1 with
    | .ok answer => r.deed? answer
    | .error _ => none
  | .wait parent target =>
    match (s.wait parent target).2.1 with
    | .returned (.ok (p, code)) => some (.collected parent p code)
    | _ => none
  | .rouse i =>
    match s.sleepers[i]?, (s.rouse i).2.returned with
    | some sleeper, [(_, .ok (p, code))] => some (.collected sleeper.waiter.caller.parent p code)
    | _, _ => none

/-- The kernel of a session with its blocked callers, all of them woken who have to be. -/
def scene (s : Session) : Scene := ⟨s.kernel, s.sleepers.map (·.waiter), []⟩

variable {s : Session}

theorem mem_blocked {w : Waiter} :
    w ∈ s.scene.blocked ↔ ∃ sleeper ∈ s.sleepers, sleeper.waiter = w := by
  simp [scene]

/-- The scene of a session, with one of its callers set apart from the others. -/
theorem scene_eq_cons {i : Nat} (hi : i < s.sleepers.length) :
    s.scene = ⟨s.kernel, s.sleepers[i].waiter ::ₘ
      Multiset.ofList ((s.sleepers.eraseIdx i).map Sleeper.waiter), []⟩ := by
  have hperm : s.scene.blocked = s.sleepers[i].waiter ::ₘ
      Multiset.ofList ((s.sleepers.eraseIdx i).map Sleeper.waiter) :=
    Multiset.coe_eq_coe.mpr ((List.getElem_cons_eraseIdx_perm hi).symm.map Sleeper.waiter)
  rw [← hperm]
  rfl

theorem led_serve {x : Scene} (h : x.Sound) (r : Request) :
    (x.kernel.serve r).Led x fun answer => (r.deed? answer).toList := by
  cases r with
  | allocate parent => exact (Kernel.led_allocate parent).map
  | activate p space => exact (Kernel.led_activate p space).map
  | activateRegions p regions => exact (Kernel.led_activateRegions p regions).map
  | create parent regions => exact (Kernel.led_create parent regions).map
  | spawn parent image => exact (Kernel.led_adoptBuild parent _).map
  | fork parent => exact (Kernel.led_fork parent).map
  | exec p image => exact (Kernel.led_exec p image).map
  | transition p next => exact (Kernel.led_transition p next).map
  | exit p code => exact Outcome.Led.map (f := fun _ => Answer.done) (Kernel.led_exit h p code)
  | kill p => exact (Kernel.led_kill h p).map
  | tryWait parent target =>
    refine Outcome.Led.map ?_
    have hled := Kernel.led_tryWait h parent target
    rw [Outcome.Led] at hled ⊢
    split at hled
    · rename_i found hr
      cases found <;> exact hled
    · exact hled
  | reap parent child => exact (Kernel.led_reap h parent child).map
  | children p => exact .refl
  | status p => exact .refl
  | parent p => exact .refl
  | exitCode p => exact .refl
  | profile p => exact .refl
  | memory p => exact .refl
  | pages p => exact .refl
  | maps p page => exact .refl
  | liveCount => exact .refl
  | capacity => exact .refl
  | adopter => exact .refl
  | profiles => exact .refl

theorem moves_serve (h : s.scene.Sound) (r : Request) :
    Scene.Moves s.scene (s.deed? (.serve r)).toList (s.act (.serve r)).scene := by
  have hled := led_serve h r
  rw [Outcome.Led] at hled
  have hscene : (s.act (.serve r)).scene =
      ⟨(s.scene.kernel.serve r).kernel, s.scene.blocked, s.scene.owed⟩ := rfl
  rw [hscene]
  have hres : (s.serve r).2.1 = (s.scene.kernel.serve r).result := rfl
  rw [deed?, hres]
  cases hr : (s.scene.kernel.serve r).result <;> rw [hr] at hled <;> exact hled

theorem moves_wait (h : s.scene.Sound) (parent : Pid) (target : Target) :
    Scene.Moves s.scene (s.deed? (.wait parent target)).toList
      (s.act (.wait parent target)).scene := by
  have hmoves := Kernel.moves_wait h parent target
  have hk : s.scene.kernel = s.kernel := rfl
  rw [hk] at hmoves
  unfold Outcome.deeds Outcome.blockedBeside at hmoves
  simp only [deed?, act, wait]
  cases hr : (s.kernel.wait parent target).result with
  | error fault =>
    rw [hr] at hmoves
    exact hmoves
  | ok waiting =>
    rw [hr] at hmoves
    cases waiting with
    | collected p code => exact hmoves
    | asleep w =>
      have hperm : Multiset.ofList ((s.sleepers ++ [Sleeper.mk s.nextId w]).map Sleeper.waiter) =
          w ::ₘ s.scene.blocked :=
        Multiset.coe_eq_coe.mpr (List.perm_append_comm.map Sleeper.waiter)
      simp only [scene, hperm]
      exact hmoves

theorem moves_rouse (h : s.scene.Sound) (i : Nat) :
    Scene.Moves s.scene (s.deed? (.rouse i)).toList (s.act (.rouse i)).scene := by
  cases hi : s.sleepers[i]? with
  | none =>
    simp only [deed?, act, rouse, hi]
    exact .refl
  | some sleeper =>
    obtain ⟨hlt, rfl⟩ := List.getElem?_eq_some_iff.mp hi
    rw [scene_eq_cons hlt] at h ⊢
    have hmoves := Kernel.moves_resume h
    unfold Outcome.deeds Outcome.blockedBeside at hmoves
    simp only [deed?, act, rouse, hi]
    cases hr : (s.kernel.resume s.sleepers[i].waiter.caller).result with
    | error fault =>
      rw [hr] at hmoves
      exact hmoves
    | ok waiting =>
      rw [hr] at hmoves
      cases waiting with
      | collected p code => exact hmoves
      | asleep w =>
        have hperm :
            Multiset.ofList ((s.sleepers.set i ⟨s.sleepers[i].id, w⟩).map Sleeper.waiter) =
              w ::ₘ Multiset.ofList ((s.sleepers.eraseIdx i).map Sleeper.waiter) :=
          Multiset.coe_eq_coe.mpr ((List.set_perm_cons_eraseIdx hlt _).map Sleeper.waiter)
        simp only [scene, hperm]
        exact hmoves

/-- Every act is a run of moves that does the deed which the act tells of. -/
theorem moves_act (h : s.scene.Sound) : ∀ a : Act,
    Scene.Moves s.scene (s.deed? a).toList (s.act a).scene
  | .serve r => moves_serve h r
  | .wait parent target => moves_wait h parent target
  | .rouse i => moves_rouse h i

end Session

end Lifecycle
