import Lifecycle.Proofs.Kernel.Housing
import Lifecycle.Proofs.Kernel.Teardown
import Lifecycle.Proofs.Kernel.Harvest
/-!
# What an operation leaves alone

An operation that a process carries out on its own behalf changes its own slot. Every other living
process rests: it keeps its identity and its callers, and its status can only change while somebody
is blocked on its behalf. Creating, collecting and killing leave even the slot of the process that
asked for them at rest.
-/

namespace Lifecycle

/-- A living process is left to itself. Only one on whose behalf callers are blocked may be woken. -/
structure Slot.Rests (s s' : Slot) : Prop where
  pid : s'.pid = s.pid
  waiters : s'.waiters = s.waiters
  alive : s'.status.isAlive = true
  status : s.waiters = 0 → s'.status = s.status

namespace Slot

variable {s s' s'' : Slot}

theorem Rests.refl (h : s.status.isAlive = true) : s.Rests s := ⟨rfl, rfl, h, fun _ => rfl⟩

theorem Rests.trans (h : s.Rests s') (h' : s'.Rests s'') : s.Rests s'' := by
  refine ⟨h'.pid.trans h.pid, h'.waiters.trans h.waiters, h'.alive, ?_⟩
  intro hw
  rw [h'.status (h.waiters.trans hw), h.status hw]

theorem Rests.holds (h : s.Rests s') {p : Pid} (hp : s.holds p = true) : s'.holds p = true := by
  rw [holds_iff] at hp ⊢
  exact ⟨inUse_of_alive h.alive, h.pid.trans hp.2⟩

theorem rests_rouse (ha : s.status.isAlive = true) (hw : s.waiters ≠ 0) : s.Rests s.rouse :=
  ⟨s.pid_rouse, s.waiters_rouse, (Continues.rouse s).alive ha, fun h => absurd h hw⟩

end Slot

namespace Table

variable {t t' t'' : Table} {i j : Nat}

/-- Every living process outside a slot rests. -/
def Spares (t t' : Table) (j : Nat) : Prop :=
  ∀ m, m ≠ j → (t.slotAt m).status.isAlive = true → (t.slotAt m).Rests (t'.slotAt m)

theorem Spares.refl (t : Table) (j : Nat) : t.Spares t j := fun _ _ ha => .refl ha

theorem Spares.trans (h : t.Spares t' j) (h' : t'.Spares t'' j) : t.Spares t'' j := by
  intro m hm ha
  have hfirst := h m hm ha
  exact hfirst.trans (h' m hm hfirst.alive)

theorem spares_of_eq (h : ∀ m, m ≠ j → (t.slotAt m).status.isAlive = true →
    t'.slotAt m = t.slotAt m) : t.Spares t' j := by
  intro m hm ha
  rw [h m hm ha]
  exact .refl ha

theorem spares_modifySlot (hj : j < t.capacity) (f : Slot → Slot) :
    t.Spares (t.modifySlot j f) j := by
  refine spares_of_eq fun m hm _ => ?_
  rw [slotAt_modifySlot hj, if_neg hm.symm]

theorem spares_fall {p : Pid} {code : ExitCode} (hj : j < t.capacity) :
    t.Spares (t.fall j p code) j := by
  intro m hm ha
  rw [slotAt_fall_eq hj hm.symm]
  exact ⟨rfl, rfl, ha, fun _ => rfl⟩

theorem spares_drop {pool : PidPool} (hz : (t.slotAt i).isZombie = true) (j : Nat) :
    t.Spares (t.drop i pool) j := by
  refine spares_of_eq fun m _ ha => ?_
  have him : i ≠ m := ne_of_zombie hz ha
  rw [slotAt_drop (lt_capacity_of_inUse (Slot.inUse_of_zombie hz)), if_neg him]

/-- A process came to be in a free slot, ready and with an address space, and nothing else changed.
-/
def Gains (t : Table) (q parent : Pid) (t' : Table) : Prop :=
  t.Fresh q ∧ ∃ i space, (t.slotAt i).inUse = false ∧ i < t.capacity ∧ ∀ m, t'.slotAt m =
    if i = m then { Slot.taken q parent with status := .runnable, space := some space }
    else t.slotAt m

theorem Gains.spares {q parent : Pid} (h : t.Gains q parent t') (j : Nat) : t.Spares t' j := by
  obtain ⟨-, i, space, hfree, -, hslot⟩ := h
  refine spares_of_eq fun m _ ha => ?_
  rw [hslot, if_neg (ne_of_free hfree (Slot.inUse_of_alive ha))]

/-- Who may wait for anybody and finds no children has none. -/
theorem Sound.childless (h : t.Sound) {p : Pid} (hf : t.find p .any = .noChildren) (i : Nat) :
    (t.slotAt i).isChildOf p = false := by
  have hmatching := find_eq_noChildren.mp hf i
  by_contra hchild
  rw [Bool.not_eq_false] at hchild
  obtain ⟨q, hq⟩ := (h.slots i).named (Slot.isChildOf_iff.mp hchild).1
  rw [Slot.matching?, if_pos hchild, hq] at hmatching
  cases hmatching

/-- Nobody has been killed. -/
def Unmarked (t : Table) : Prop := ∀ i, (t.slotAt i).killed = false

theorem Unmarked.modifySlot (h : t.Unmarked) (hj : j < t.capacity) {f : Slot → Slot}
    (hf : (f (t.slotAt j)).killed = (t.slotAt j).killed) : (t.modifySlot j f).Unmarked := by
  intro m
  rw [modifySlot_congr (g := Slot.killed) hj hf]
  exact h m

theorem Unmarked.gains {q parent : Pid} (h : t.Unmarked) (hg : t.Gains q parent t') :
    t'.Unmarked := by
  obtain ⟨-, i, space, -, -, hslot⟩ := hg
  intro m
  rw [hslot]
  split
  · rfl
  · exact h m

theorem Unmarked.fall {p : Pid} {code : ExitCode} (h : t.Unmarked) (hr : t.Ranked)
    (hp : (t.slotAt j).holds p = true) : (t.fall j p code).Unmarked := by
  intro m
  by_cases hjm : j = m
  · rw [← hjm, hr.slotAt_fall_self hp]
    exact h j
  · rw [slotAt_fall_eq (lt_capacity_of_holds hp) hjm]
    exact h m

theorem Unmarked.drop {pool : PidPool} (h : t.Unmarked) (hi : i < t.capacity) :
    (t.drop i pool).Unmarked := by
  intro m
  rw [slotAt_drop hi]
  split
  · rfl
  · exact h m

end Table

namespace Kernel

variable {x : Scene} {k : Kernel} {p q parent : Pid} {i j : Nat}

theorem spares_wakes (debts : List Nat) (k : Kernel) (j : Nat) :
    k.table.Spares (debts.foldl wake k).table j := by
  intro m _ ha
  rw [slotAt_wakes]
  split
  · rename_i hwoken
    exact Slot.rests_rouse ha hwoken.2
  · exact .refl ha

theorem unmarked_wakes (debts : List Nat) (h : k.table.Unmarked) :
    (debts.foldl wake k).table.Unmarked := by
  intro m
  rw [slotAt_wakes]
  split
  · rw [Slot.killed_rouse]
    exact h m
  · exact h m

/-! ## Scheduling, creating, killing -/

/-- A process moves on to a status that is next in its life. -/
theorem transition_eq (h : x.Sound) {next : Status} (hp : (x.table.slotAt j).holds p = true)
    (hn : next.isAlive = true) (hc : (x.table.slotAt j).status.canBecome next = true) :
    (x.kernel.transition p next).result = .ok () ∧
      (x.kernel.transition p next).kernel.table =
        x.table.modifySlot j fun s => { s with status := next } := by
  have hslot : x.kernel.table.slotOf? p = some j := h.table.slotOf?_of_holds hp
  have hadvance : x.kernel.table.advance j p next =
      .ok (x.table.modifySlot j fun s => { s with status := next }) := if_pos hc
  unfold transition
  simp only [hslot]
  cases next with
  | unused | used | zombie => simp [Status.isAlive] at hn
  | runnable | running | sleeping =>
    rw [hadvance]
    exact ⟨rfl, rfl⟩

theorem install_gains (h : x.Sound) {space : AddressSpace}
    (hq : (x.kernel.install parent space).result = .ok q) :
    x.table.Gains q parent (x.kernel.install parent space).kernel.table := by
  rcases x.kernel.install_cases parent space with ⟨why, hr⟩ | ⟨i, hfree, hr⟩
  · rw [hr] at hq
    cases hq
  · obtain ⟨hi, hunused, -⟩ := Table.freeSlot?_eq_some.mp hfree
    obtain rfl : x.kernel.table.pool.issue.1 = q := Except.ok.inj (hr.1.symm.trans hq)
    rw [hr.2]
    exact ⟨h.accounted.issue_fresh h.table hi hunused, i, space, hunused, hi, Table.slotAt_seat hi⟩

theorem fork_gains (h : x.Sound) (hq : (x.kernel.fork p).result = .ok q) :
    x.table.Gains q p (x.kernel.fork p).kernel.table := by
  rcases x.kernel.fork_cases p with ⟨why, hr⟩ | ⟨i, space, -, -, hr⟩ <;> rw [hr] at hq ⊢
  · simp [refuse, fail] at hq
  · obtain ⟨hresult, hkernel⟩ := Outcome.andThen_tell (x.kernel.install p space.copy)
      fun p' => [.forked p p']
    rw [hkernel]
    exact install_gains h (hresult ▸ hq)

theorem adoptBuild_gains (h : x.Sound) {α : Type} {built : Build α}
    (hq : (x.kernel.adoptBuild parent built).result = .ok q) :
    x.table.Gains q parent (x.kernel.adoptBuild parent built).kernel.table := by
  cases hb : built.result with
  | error fault =>
    rw [adoptBuild, hb] at hq
    cases hq
  | ok a =>
    obtain ⟨hresult, hkernel⟩ :
      (x.kernel.adoptBuild parent built).Agrees (x.kernel.install parent built.space) :=
      adoptBuild_eq_install hb
    rw [hkernel]
    exact install_gains h (hresult ▸ hq)

theorem create_gains (h : x.Sound) {regions : List Region}
    (hq : (x.kernel.create parent regions).result = .ok q) :
    x.table.Gains q parent (x.kernel.create parent regions).kernel.table := by
  obtain ⟨hresult, hkernel⟩ := x.kernel.create_eq_adoptBuild parent regions
  rw [hkernel]
  exact adoptBuild_gains h (hresult ▸ hq)

theorem spares_kill (k : Kernel) (p : Pid) (j : Nat) : k.table.Spares (k.kill p).kernel.table j := by
  rcases k.kill_cases p with ⟨why, hr⟩ | ⟨i, hs, -, hr⟩ <;> rw [hr]
  · exact .refl _ j
  · have hi := Table.lt_capacity_of_holds (Table.holds_of_slotOf? hs)
    have hmark : k.table.Spares (k.table.modifySlot i fun s => { s with killed := true }) j := by
      intro m _ ha
      rw [Table.slotAt_modifySlot hi]
      split
      · rename_i him
        subst him
        exact ⟨rfl, rfl, ha, fun _ => rfl⟩
      · exact .refl ha
    exact hmark.trans (spares_wakes [i] ⟨k.table.modifySlot i _, k.channels⟩ j)

/-! ## Ending -/

/-- A running process other than the adopter ends. -/
theorem exit_running (h : x.Sound) (hp : (x.table.slotAt j).holds p = true)
    (hr : (x.table.slotAt j).status = .running) (hj : j ≠ 0) (code : ExitCode) :
    (x.kernel.exit p code).result = .ok () ∧
      x.table.Spares (x.kernel.exit p code).kernel.table j ∧
      ∃ debts : List Nat,
        (x.kernel.exit p code).kernel = debts.foldl wake (x.kernel.fallen j p code) := by
  have hne : p ≠ x.table.adopter := fun heq => hj ((h.table.eq_zero_iff hp).mpr heq)
  have hlt := Table.lt_capacity_of_holds hp
  obtain ⟨q, hq, m, hm, -⟩ := h.table.parent_alive j hj (Slot.holds_iff.mp hp).1
  obtain ⟨told, htold⟩ := exit_eq_finish h hp hne (.inl hr) code
  rw [htold, finish_eq h hp hne hq hm code told]
  refine ⟨rfl, ?_, _, rfl⟩
  exact (Table.spares_fall hlt).trans (spares_wakes _ (x.kernel.fallen j p code) j)

/-! ## Waiting -/

/-- What a look comes to: it is refused because of a mark or for want of children, it collects a
child, or it blocks. -/
theorem look_spec (h : x.Sound) (c : Caller) :
    (x.table.slotAt c.slot).killed = true ∧ x.kernel.look c = x.kernel.refuse .killed ∨
    (x.table.slotAt c.slot).killed = false ∧
      (x.table.find c.parent c.target = .noChildren ∧ x.kernel.look c = x.kernel.refuse .noChildren ∨
      (∃ i q code, (x.table.slotAt i).remains? c.parent c.target = some (q, code) ∧
        x.kernel.look c = ⟨.ok (.collected q code),
          { x.kernel with table := x.table.vacate i q }, [.reaped c.parent q code]⟩) ∨
      x.table.find c.parent c.target = .pending ∧ x.kernel.look c = x.kernel.block c) := by
  cases hkilled : (x.table.slotAt c.slot).killed with
  | true => exact .inl ⟨rfl, if_pos hkilled⟩
  | false =>
    right
    refine ⟨rfl, ?_⟩
    have hunmarked : ¬(x.kernel.table.slotAt c.slot).killed = true := by
      rw [hkilled]
      decide
    unfold look
    rw [if_neg hunmarked]
    cases hf : x.kernel.table.find c.parent c.target with
    | noChildren => exact .inl ⟨rfl, rfl⟩
    | pending => exact .inr (.inr ⟨rfl, rfl⟩)
    | found i q code =>
      have hremains := Table.find_eq_found hf
      obtain ⟨hm, -, hz, -⟩ := Slot.remains?_eq_some.mp hremains
      refine .inr (.inl ⟨i, q, code, hremains, ?_⟩)
      simp only [collect_eq h (Slot.holds_of_matching? hm) hz, Outcome.map]
      rfl

/-- A look that does not block spares everybody. -/
theorem spares_look (h : x.Sound) {c : Caller} (hc : ∀ w, (x.kernel.look c).result ≠ .ok (.asleep w))
    (j : Nat) : x.table.Spares (x.kernel.look c).kernel.table j := by
  rcases look_spec h c with ⟨-, hr⟩ | ⟨-, ⟨-, hr⟩ | ⟨i, q, code, hremains, hr⟩ | ⟨-, hr⟩⟩
  · rw [hr]
    exact .refl _ j
  · rw [hr]
    exact .refl _ j
  · rw [hr]
    obtain ⟨-, -, hz, -⟩ := Slot.remains?_eq_some.mp hremains
    exact Table.spares_drop hz j
  · have hasleep := hc ⟨c, x.kernel.channels.ticket c.slot⟩
    rw [hr] at hasleep
    exact absurd rfl hasleep

/-- A caller that goes to sleep adds itself to the callers of its own slot. -/
theorem block_of_asleep (h : x.Sound) {c : Caller} {w : Waiter}
    (hw : (x.kernel.look c).result = .ok (.asleep w)) :
    w.caller = c ∧ (x.kernel.look c).kernel = (x.kernel.block c).kernel := by
  rcases look_spec h c with ⟨-, hr⟩ | ⟨-, ⟨-, hr⟩ | ⟨i, q, code, -, hr⟩ | ⟨-, hr⟩⟩ <;> rw [hr] at hw ⊢
  · cases hw
  · cases hw
  · cases hw
  · cases hw
    exact ⟨rfl, rfl⟩

theorem wait_eq_look (h : x.Sound) {target : Target} (hp : (x.table.slotAt j).holds p = true)
    (ha : (x.table.slotAt j).status.isAlive = true) :
    x.kernel.wait p target = x.kernel.look ⟨j, p, target⟩ := by
  have hslot : x.kernel.table.aliveSlot p = .ok j := h.table.aliveSlot_of_holds hp ha
  rw [wait, hslot]

/-- A caller of a living process leaves it running and looks again. -/
theorem resume_eq_look {c : Caller} {left : Nat}
    (hw : (k.table.slotAt c.slot).waiters = left + 1)
    (ha : (k.table.slotAt c.slot).status.isAlive = true) :
    k.resume c = (k.leave c.slot left .running).look c := by
  unfold resume
  rw [hw]
  cases hs : (k.table.slotAt c.slot).status with
  | unused | used | zombie => simp [hs, Status.isAlive] at ha
  | runnable | running | sleeping => rfl

/-- The two halves of a wait come to the same: the running process in a slot, with none of its own
callers left and the others blocked as they were, looks for a child. -/
structure Looks (k : Kernel) (mine others : Multiset Waiter) (j : Nat) (p : Pid)
    (o : Outcome Waiting) (y : Scene) (target : Target) : Prop where
  sound : y.Sound
  blocked : y.blocked = others
  owed : y.owed = []
  moves : Scene.Moves ⟨k, mine + others, []⟩ [] y
  spares : k.table.Spares y.table j
  unmarked : k.table.Unmarked → y.table.Unmarked
  houses : k.table.Houses y.table
  holds : (y.table.slotAt j).holds p = true
  running : (y.table.slotAt j).status = .running
  free : (y.table.slotAt j).waiters = 0
  outcome : o = y.kernel.look ⟨j, p, target⟩

theorem looks_wait {others : Multiset Waiter} (h : Scene.Sound ⟨k, others, []⟩) (target : Target)
    (hp : (k.table.slotAt j).holds p = true) (hr : (k.table.slotAt j).status = .running)
    (hw : (k.table.slotAt j).waiters = 0) :
    Looks k 0 others j p (k.wait p target) ⟨k, others, []⟩ target where
  sound := h
  blocked := rfl
  owed := rfl
  moves := by
    rw [Multiset.zero_add]
    exact .refl
  spares := .refl _ j
  unmarked := id
  houses := .refl _
  holds := hp
  running := hr
  free := hw
  outcome := wait_eq_look h hp (by
    show (k.table.slotAt j).status.isAlive = true
    rw [hr]
    rfl)

theorem looks_resume {others : Multiset Waiter} {w : Waiter}
    (h : Scene.Sound ⟨k, {w} + others, []⟩) (hj : w.caller.slot = j) (hp : w.caller.parent = p)
    (ha : (k.table.slotAt j).status.isAlive = true) (hw : (k.table.slotAt j).waiters = 1) :
    Looks k {w} others j p (k.resume w.caller) ⟨k.leave j 0 .running, others, []⟩
      w.caller.target := by
  subst hj hp
  rw [Multiset.singleton_add] at h
  have hleave : Scene.Move ⟨k, w ::ₘ others, []⟩ [] ⟨k.leave w.caller.slot 0 .running, others, []⟩ :=
    move_leave hw ha rfl
  have hlt := Table.lt_capacity_of_inUse (Slot.inUse_of_alive ha)
  have hslot : (k.leave w.caller.slot 0 .running).table.slotAt w.caller.slot =
      { k.table.slotAt w.caller.slot with waiters := 0, status := .running } := by
    show (k.table.modifySlot _ _).slotAt _ = _
    rw [Table.slotAt_modifySlot hlt, if_pos rfl]
  have hpin := (h.pinned w (Multiset.mem_cons_self w others)).1
  constructor
  case sound => exact h.move hleave
  case blocked => rfl
  case owed => rfl
  case moves =>
    rw [Multiset.singleton_add]
    exact hleave.moves
  case spares => exact Table.spares_modifySlot hlt _
  case unmarked => exact fun hu => hu.modifySlot hlt rfl
  case houses => exact (keeps_leave 0 (.inr ha)).houses
  case holds =>
    rw [(hleave.continues.slots w.caller.slot).holds]
    exact hpin
  case running =>
    show ((k.leave w.caller.slot 0 .running).table.slotAt w.caller.slot).status = _
    rw [hslot]
  case free =>
    show ((k.leave w.caller.slot 0 .running).table.slotAt w.caller.slot).waiters = _
    rw [hslot]
  case outcome => exact resume_eq_look hw ha

namespace Looks

variable {mine others : Multiset Waiter} {o : Outcome Waiting} {y : Scene} {target : Target}

theorem alive (h : Looks k mine others j p o y target) :
    (y.table.slotAt j).status.isAlive = true := by
  rw [h.running]
  rfl

theorem moves_deeds (h : Looks k mine others j p o y target) :
    Scene.Moves ⟨k, mine + others, []⟩ (o.deeds p) ⟨o.kernel, o.blockedBeside others, []⟩ := by
  have hlook := moves_look (c := ⟨j, p, target⟩) h.sound h.holds h.alive
  rw [← h.outcome, h.blocked, h.owed] at hlook
  exact h.moves.trans hlook

theorem houses_after (h : Looks k mine others j p o y target) :
    k.table.Houses o.kernel.table := by
  rw [h.outcome]
  exact h.houses.trans (keeps_look _ _).houses

/-- A look kills nobody. -/
theorem unmarked_after (h : Looks k mine others j p o y target) (hu : k.table.Unmarked) :
    o.kernel.table.Unmarked := by
  have hy := h.unmarked hu
  rw [h.outcome]
  rcases look_spec h.sound ⟨j, p, target⟩ with
    ⟨-, hr⟩ | ⟨-, ⟨-, hr⟩ | ⟨i, q, code, hremains, hr⟩ | ⟨-, hr⟩⟩ <;> rw [hr]
  · exact hy
  · exact hy
  · obtain ⟨hm, -⟩ := Slot.remains?_eq_some.mp hremains
    exact hy.drop (Table.lt_capacity_of_holds (Slot.holds_of_matching? hm))
  · exact hy.modifySlot (Table.lt_capacity_of_holds h.holds) rfl

/-- Where nobody has been killed, a look is refused for want of children only. -/
theorem childless (h : Looks k mine others j p o y target) (hu : k.table.Unmarked) {why : Refusal}
    (hr : o.result = .error (.refused why)) :
    why = .noChildren ∧ y.table.find p target = .noChildren := by
  rw [h.outcome] at hr
  rcases look_spec h.sound ⟨j, p, target⟩ with
    ⟨hk, -⟩ | ⟨-, ⟨hnone, hr'⟩ | ⟨i, q, code, -, hr'⟩ | ⟨-, hr'⟩⟩
  · rw [h.unmarked hu] at hk
    cases hk
  · rw [hr'] at hr
    cases hr
    exact ⟨rfl, hnone⟩
  · rw [hr'] at hr
    cases hr
  · rw [hr'] at hr
    cases hr

/-- A look is answered, or it is refused. -/
theorem answered (h : Looks k mine others j p o y target) :
    (∃ w, o.result = .ok (.asleep w)) ∨ (∃ q code, o.result = .ok (.collected q code)) ∨
      ∃ why, o.result = .error (.refused why) := by
  rw [h.outcome]
  rcases look_spec h.sound ⟨j, p, target⟩ with
    ⟨-, hr⟩ | ⟨-, ⟨-, hr⟩ | ⟨i, q, code, -, hr⟩ | ⟨-, hr⟩⟩ <;> rw [hr]
  · exact .inr (.inr ⟨.killed, rfl⟩)
  · exact .inr (.inr ⟨.noChildren, rfl⟩)
  · exact .inr (.inl ⟨q, code, rfl⟩)
  · exact .inl ⟨_, rfl⟩

/-- A process that has found a child, or learnt that it will not, goes on as it was. -/
theorem awake (h : Looks k mine others j p o y target)
    (ha : ∀ w, o.result ≠ .ok (.asleep w)) :
    k.table.Spares o.kernel.table j ∧ (o.kernel.table.slotAt j).holds p = true ∧
      (o.kernel.table.slotAt j).status = .running ∧ (o.kernel.table.slotAt j).waiters = 0 := by
  rw [h.outcome] at ha ⊢
  have hspares := fun m => spares_look (c := ⟨j, p, target⟩) h.sound ha m
  -- the look also spares the slot of the process itself
  have hself := hspares (j + 1) j (Nat.ne_of_lt (Nat.lt_succ_self j)) h.alive
  exact ⟨h.spares.trans (hspares j), hself.holds h.holds, (hself.status h.free).trans h.running,
    hself.waiters.trans h.free⟩

theorem asleep (h : Looks k mine others j p o y target) {w : Waiter}
    (hw : o.result = .ok (.asleep w)) :
    k.table.Spares o.kernel.table j ∧ w.caller = ⟨j, p, target⟩ ∧
      (o.kernel.table.slotAt j).holds p = true ∧
      (o.kernel.table.slotAt j).status.isAlive = true ∧
      (o.kernel.table.slotAt j).waiters = 1 := by
  rw [h.outcome] at hw ⊢
  obtain ⟨hcaller, hblock⟩ := block_of_asleep h.sound hw
  have hlt := Table.lt_capacity_of_holds h.holds
  have hslot : (y.kernel.block ⟨j, p, target⟩).kernel.table.slotAt j =
      { y.table.slotAt j with waiters := 1, status := .sleeping } := by
    show (y.table.modifySlot j _).slotAt j = _
    rw [Table.slotAt_modifySlot hlt, if_pos rfl, h.free, h.running]
    rfl
  rw [hblock]
  refine ⟨h.spares.trans (Table.spares_modifySlot hlt _), hcaller, ?_, ?_, ?_⟩
  · rw [hslot]
    exact Slot.holds_iff.mpr ⟨rfl, (Slot.holds_iff.mp h.holds).2⟩
  · rw [hslot]
    rfl
  · rw [hslot]

/-- Nobody but the process itself is disturbed by a look. -/
theorem spares_after (h : Looks k mine others j p o y target) :
    k.table.Spares o.kernel.table j := by
  by_cases ha : ∀ w, o.result ≠ .ok (.asleep w)
  · exact (h.awake ha).1
  · obtain ⟨w, hw⟩ := not_forall_not.mp ha
    exact (h.asleep hw).1

end Looks

end Kernel

end Lifecycle
