import Lifecycle.Proofs.Kernel.Atomicity
import Lifecycle.Proofs.Kernel.Collection
import Lifecycle.Proofs.Kernel.Kin
/-!
# Busy kernels

A kernel is busy if nobody is blocked in it and each of its processes runs in an address space or has
ended. A process that is created and made to run, one that ends, one that is killed and one that is
collected each leave a busy kernel busy, and apart from parent links they touch a single slot. So the
numbers of processes, of zombies and of those that are marked as killed can be kept in books.
-/

namespace Lifecycle

/-- The process of a slot has been killed and has not ended. -/
def Slot.isMarked (s : Slot) : Bool := s.killed && !s.isZombie

namespace Table

variable {t t' : Table} {i : Nat}

/-- Only one slot changes, apart from parent links. -/
structure Touches (t : Table) (i : Nat) (t' : Table) : Prop where
  capacity : t'.capacity = t.capacity
  adopter : t'.adopter = t.adopter
  lt : i < t.capacity
  rest : ∀ m, i ≠ m → t'.slotAt m = { t.slotAt m with parent := (t'.slotAt m).parent }

/-- A count of slots changes as the slot that is touched does. -/
theorem Touches.countP (h : t.Touches i t') {f : Slot → Bool}
    (hf : ∀ (s : Slot) (q : Option Pid), f { s with parent := q } = f s) :
    t'.slots.countP f + (f (t.slotAt i)).toNat = t.slots.countP f + (f (t'.slotAt i)).toNat := by
  have hrest : ∀ j, i ≠ j → f (t'.slotAt j) = f (t.slotAt j) := by
    intro j hij
    rw [h.rest j hij, hf]
  cases hb : f (t.slotAt i) <;> cases ha : f (t'.slotAt i)
  · rw [countP_congr h.capacity fun j => ?_]
    by_cases hij : i = j
    · rw [← hij, hb, ha]
    · exact hrest j hij
  · rw [countP_succ h.capacity h.lt hb ha hrest]
    rfl
  · rw [countP_succ h.capacity.symm (h.lt.trans_eq h.capacity.symm) ha hb
      fun j hij => (hrest j hij).symm]
    rfl
  · rw [countP_congr h.capacity fun j => ?_]
    by_cases hij : i = j
    · rw [← hij, hb, ha]
    · exact hrest j hij

/-- The number of processes that have ended and not been collected. -/
def zombies (t : Table) : Nat := t.slots.countP (·.isZombie)

/-- The number of processes that have been killed and not ended. -/
def marked (t : Table) : Nat := t.slots.countP (·.isMarked)

theorem Touches.liveCount (h : t.Touches i t') :
    t'.liveCount + (t.slotAt i).inUse.toNat = t.liveCount + (t'.slotAt i).inUse.toNat :=
  h.countP fun _ _ => rfl

theorem Touches.zombies (h : t.Touches i t') :
    t'.zombies + (t.slotAt i).isZombie.toNat = t.zombies + (t'.slotAt i).isZombie.toNat :=
  h.countP fun _ _ => rfl

theorem Touches.marked (h : t.Touches i t') :
    t'.marked + (t.slotAt i).isMarked.toNat = t.marked + (t'.slotAt i).isMarked.toNat :=
  h.countP fun _ _ => rfl

end Table

namespace Kernel

/-- Nobody is blocked, and every process runs in an address space or has ended. -/
structure Busy (k : Kernel) : Prop where
  sound : Scene.Sound ⟨k, 0, []⟩
  works : ∀ i, (k.table.slotAt i).inUse = true → (k.table.slotAt i).isZombie = false →
    (k.table.slotAt i).status = .running ∧ (k.table.slotAt i).space.isSome = true

namespace Busy

variable {k k' : Kernel} {i : Nat} {p q : Pid}

theorem table (h : k.Busy) : k.table.Sound := h.sound.table

theorem quiet (h : k.Busy) (i : Nat) : (k.table.slotAt i).waiters = 0 := h.sound.waiters i

theorem housed (h : k.Busy) (i : Nat) : (k.table.slotAt i).Housed := fun ha =>
  (h.works i (Slot.inUse_of_alive ha) (Slot.not_zombie_of_alive ha)).2

theorem adopter_runs (h : k.Busy) : (k.table.slotAt 0).status = .running :=
  (h.works 0 (Slot.inUse_of_alive h.table.adopter.alive)
    (Slot.not_zombie_of_alive h.table.adopter.alive)).1

/-- The table of a busy kernel breaks no rule. -/
theorem audit (h : k.Busy) : k.table.audit = none := by
  rw [Option.eq_none_iff_forall_ne_some]
  intro v hv
  exact h.table.not_housed_of_audit h.sound.ranked hv (h.housed v.slot)

/-- A kernel stays busy if the slot that is touched is again that of a process at work, or of one that
has ended, or free. -/
theorem touches (h : k.Busy) (hs : Scene.Sound ⟨k', 0, []⟩) (ht : k.table.Touches i k'.table)
    (hi : (k'.table.slotAt i).inUse = true → (k'.table.slotAt i).isZombie = false →
      (k'.table.slotAt i).status = .running ∧ (k'.table.slotAt i).space.isSome = true) :
    k'.Busy where
  sound := hs
  works := fun m hu hz => by
    by_cases him : i = m
    · subst him
      exact hi hu hz
    · rw [ht.rest m him] at hu hz ⊢
      exact h.works m hu hz

theorem boot {config : Config} (hk : Kernel.boot config = .ok k) : k.Busy := by
  obtain ⟨-, -, -, -, h0, hrest⟩ := Table.boot_eq_ok (Kernel.boot_eq_ok hk).1
  refine ⟨(Session.Reachable.boot hk).sound, fun i hu hz => ?_⟩
  by_cases hi : i = 0
  · rw [hi, h0]
    exact ⟨rfl, rfl⟩
  · rw [hrest i hi] at hu
    cases hu

end Busy

theorem wakes_of_quiet {k : Kernel} (h : ∀ i, (k.table.slotAt i).waiters = 0) (debts : List Nat) :
    debts.foldl wake k = k := by
  induction debts with
  | nil => rfl
  | cons i rest ih => rw [List.foldl_cons, wake_of_none (h i), ih]

/-- A step that is to make a process does so, or finds no room for it. -/
inductive Makes (k : Kernel) (parent : Pid) (o : Outcome Pid) : Prop
  | made {q : Pid} (result : o.result = .ok q) (led : o.Led ⟨k, 0, []⟩ fun p => [.born p])
    (gains : k.table.Gains q parent o.kernel.table)
  | full (result : o.result = .error (.refused .tableFull)) (kernel : o.kernel = k)

namespace Busy

variable {k : Kernel} {i : Nat} {p q parent : Pid}

/-! ## Creating and making to run -/

/-- Whoever has been made can be made to run. -/
theorem start (h : k.Busy) {o : Outcome Pid} (hled : o.Led ⟨k, 0, []⟩ fun p => [.born p])
    (hq : o.result = .ok q) (hgains : k.table.Gains q parent o.kernel.table) :
    (o.kernel.transition q .running).result = .ok () ∧
      (o.kernel.transition q .running).kernel.Busy ∧ ∃ i,
        k.table.Touches i (o.kernel.transition q .running).kernel.table ∧
        (k.table.slotAt i).inUse = false ∧
        ((o.kernel.transition q .running).kernel.table.slotAt i).status = .running ∧
        ((o.kernel.transition q .running).kernel.table.slotAt i).killed = false := by
  rw [Outcome.Led, hq] at hled
  have hs : Scene.Sound ⟨o.kernel, 0, []⟩ := h.sound.moves hled
  obtain ⟨-, i, space, hfree, hi, hslot⟩ := hgains
  have hself := hslot i
  rw [if_pos rfl] at hself
  have hi' : i < o.kernel.table.capacity := hi.trans_eq hled.capacity.symm
  have hmove : (o.kernel.transition q .running).result = .ok () ∧
      (o.kernel.transition q .running).kernel.table =
        o.kernel.table.modifySlot i fun s => { s with status := .running } :=
    transition_eq hs (by
      show (o.kernel.table.slotAt i).holds q = true
      rw [hself]
      exact Slot.holds_iff.mpr ⟨rfl, rfl⟩) rfl (by
      show (o.kernel.table.slotAt i).status.canBecome .running = true
      rw [hself]
      rfl)
  obtain ⟨hok, htable⟩ := hmove
  have hafter : ∀ m, (o.kernel.transition q .running).kernel.table.slotAt m =
      if i = m then { Slot.taken q parent with status := .running, space := some space }
      else k.table.slotAt m := by
    intro m
    rw [htable, Table.slotAt_modifySlot hi', hself]
    by_cases him : i = m
    · rw [if_pos him, if_pos him]
    · rw [if_neg him, if_neg him, hslot, if_neg him]
  have hself' := hafter i
  rw [if_pos rfl] at hself'
  have hs' : Scene.Sound ⟨(o.kernel.transition q .running).kernel, 0, []⟩ :=
    hs.moves (led_transition (x := ⟨o.kernel, 0, []⟩) q .running)
  have htouches : k.table.Touches i (o.kernel.transition q .running).kernel.table := by
    refine ⟨?_, ?_, hi, fun m him => ?_⟩
    · rw [htable, Table.capacity_modifySlot]
      exact hled.capacity
    · rw [htable]
      exact hled.adopter
    · rw [hafter, if_neg him]
  refine ⟨hok, h.touches hs' htouches fun _ _ => ?_, i, htouches, hfree, ?_, ?_⟩
  · rw [hself']
    exact ⟨rfl, rfl⟩
  · rw [hself']
  · rw [hself']
    rfl

theorem fork (h : k.Busy) (hp : (k.table.slotAt i).holds p = true)
    (hr : (k.table.slotAt i).status = .running) : k.Makes p (k.fork p) := by
  rcases fork_housed (h.table.slotOf?_of_holds hp) hr (h.housed i) with ⟨q, hq⟩ | hfull
  · exact .made hq (led_fork (x := ⟨k, 0, []⟩) p) (fork_gains h.sound hq)
  · exact .full hfull (atomic_fork _ hfull)

theorem create (h : k.Busy) (hp : (k.table.slotAt i).holds p = true)
    (hr : (k.table.slotAt i).status = .running) {regions : List Region}
    (hb : (AddressSpace.ofRegions regions).result = .ok ()) :
    k.Makes p (k.create p regions) := by
  have halive : k.table.aliveSlot p = .ok i := h.table.aliveSlot_of_holds hp (by rw [hr]; rfl)
  have hresult : (k.create p regions).result = _ := (create_eq_install k hb).1
  rcases install_alive halive (AddressSpace.ofRegions regions).space with ⟨q, hq⟩ | ⟨hfull, -⟩
  · have hcreated := hresult.trans hq
    exact .made hcreated (led_create (x := ⟨k, 0, []⟩) p regions) (create_gains h.sound hcreated)
  · have hrefused := hresult.trans hfull
    exact .full hrefused (atomic_create _ hrefused)

/-! ## Ending, killing, collecting -/

/-- A running process other than the adopter ends. -/
theorem exit (h : k.Busy) (hp : (k.table.slotAt i).holds p = true)
    (hr : (k.table.slotAt i).status = .running) (hne : p ≠ k.table.adopter) (code : ExitCode) :
    (k.exit p code).result = .ok () ∧ (k.exit p code).kernel.Busy ∧
      k.table.Touches i (k.exit p code).kernel.table ∧
      (k.exit p code).kernel.table.slotAt i =
        { k.table.slotAt i with status := .zombie, exitCode := some code, space := none } := by
  have hi0 : i ≠ 0 := fun h0 => hne ((h.table.eq_zero_iff hp).mp h0)
  obtain ⟨hok, -, debts, hkernel⟩ := exit_running h.sound hp hr hi0 code
  have hlt := Table.lt_capacity_of_holds hp
  have hquiet : ∀ m, ((k.fallen i p code).table.slotAt m).waiters = 0 := by
    intro m
    have hslot : (k.fallen i p code).table.slotAt m = _ := slotAt_fallen h.sound hp m
    rw [hslot, Slot.waiters_fell]
    exact h.quiet m
  have hled := led_exit h.sound p code
  rw [Outcome.Led] at hled
  have hs : Scene.Sound ⟨(k.exit p code).kernel, 0, []⟩ := h.sound.moves hled
  have hfall : (k.exit p code).kernel.table = k.table.fall i p code := by
    rw [hkernel]
    exact congrArg Kernel.table (wakes_of_quiet hquiet debts)
  have hself : (k.exit p code).kernel.table.slotAt i =
      { k.table.slotAt i with status := .zombie, exitCode := some code, space := none } := by
    rw [hfall]
    exact h.sound.ranked.slotAt_fall_self hp
  have htouches : k.table.Touches i (k.exit p code).kernel.table := by
    rw [hfall]
    exact ⟨Table.capacity_fall, rfl, hlt, fun m him => Table.slotAt_fall_eq hlt him⟩
  refine ⟨hok, h.touches hs htouches fun _ hz => ?_, htouches, hself⟩
  rw [hself] at hz
  cases hz

/-- A running process other than the adopter is killed. -/
theorem kill (h : k.Busy) (hp : (k.table.slotAt i).holds p = true)
    (hr : (k.table.slotAt i).status = .running) (hne : p ≠ k.table.adopter) :
    (k.kill p).result = .ok () ∧ (k.kill p).kernel.Busy ∧
      k.table.Touches i (k.kill p).kernel.table ∧
      (k.kill p).kernel.table.slotAt i = { k.table.slotAt i with killed := true } := by
  have hlt := Table.lt_capacity_of_holds hp
  have halive : k.table.aliveSlot p = .ok i := h.table.aliveSlot_of_holds hp (by rw [hr]; rfl)
  have hslot : ∀ m, (k.table.modifySlot i fun s => { s with killed := true }).slotAt m =
      if i = m then { k.table.slotAt i with killed := true } else k.table.slotAt m :=
    Table.slotAt_modifySlot hlt _
  have hkill : k.kill p = ⟨.ok (), { k with table := k.table.modifySlot i fun s =>
      { s with killed := true } }, [.killed p]⟩ := by
    unfold Kernel.kill
    rw [halive]
    dsimp only
    rw [if_neg hne, wake_of_none]
    rw [hslot, if_pos rfl]
    exact h.quiet i
  have hled := led_kill h.sound p
  rw [Outcome.Led] at hled
  have hs : Scene.Sound ⟨(k.kill p).kernel, 0, []⟩ := by
    have hmoved := h.sound.moves hled
    exact hmoved
  have hself : (k.kill p).kernel.table.slotAt i = { k.table.slotAt i with killed := true } := by
    rw [hkill, hslot, if_pos rfl]
  have htouches : k.table.Touches i (k.kill p).kernel.table := by
    rw [hkill]
    refine ⟨Table.capacity_modifySlot .., rfl, hlt, fun m him => ?_⟩
    rw [hslot, if_neg him]
  refine ⟨by rw [hkill], h.touches hs htouches fun _ _ => ?_, htouches, hself⟩
  rw [hself]
  exact ⟨hr, h.housed i (by rw [hr]; rfl)⟩

/-- The child that is found is collected. -/
theorem collect (h : k.Busy) (hp : k.table.Attends p) {target : Target} {j : Nat} {code : ExitCode}
    (hf : k.table.find p target = .found j q code) :
    (k.tryWait p target).result = .ok (some (q, code)) ∧ (k.tryWait p target).kernel.Busy ∧
      k.table.Touches j (k.tryWait p target).kernel.table ∧
      (k.table.slotAt j).isZombie = true ∧
      (k.tryWait p target).kernel.table.slotAt j = .blank := by
  obtain ⟨hm, hempty, hz, hcode⟩ := Slot.remains?_eq_some.mp (Table.find_eq_found hf)
  have hq := Slot.holds_of_matching? hm
  have hlt := Table.lt_capacity_of_holds hq
  have hcollect : k.tryWait p target = ⟨.ok (some (q, code)),
      { k with table := k.table.vacate j q }, [.reaped p q code]⟩ := by
    have htry : k.tryWait p target = _ := tryWait_of_attends h.sound hp target
    have hclear : k.collect p j q code = _ := collect_eq h.sound hq hz
    rw [htry]
    simp only [hf, hclear]
    rfl
  have hslot : ∀ m, (k.table.vacate j q).slotAt m = if j = m then .blank else k.table.slotAt m :=
    Table.slotAt_drop hlt
  have hself := hslot j
  rw [if_pos rfl] at hself
  have hs : Scene.Sound ⟨{ k with table := k.table.vacate j q }, 0, []⟩ :=
    h.sound.move (.drop hq hz hempty (Slot.parent_of_matching? hm) hcode)
  have htouches : k.table.Touches j (k.table.vacate j q) := by
    refine ⟨Table.capacity_drop, rfl, hlt, fun m hjm => ?_⟩
    rw [hslot, if_neg hjm]
  rw [hcollect]
  refine ⟨rfl, h.touches hs htouches fun hu _ => ?_, htouches, hz, hself⟩
  rw [hself] at hu
  cases hu

/-- A running process that has not been killed collects a child, has to wait, or has no child. -/
theorem tryWait (h : k.Busy) (hp : k.table.Attends p) (target : Target) :
    k.tryWait p target = k.answer none ∨ k.tryWait p target = k.refuse .noChildren ∨
      ∃ q code j, (k.tryWait p target).result = .ok (some (q, code)) ∧
        (k.tryWait p target).kernel.Busy ∧
        k.table.Touches j (k.tryWait p target).kernel.table ∧
        (k.table.slotAt j).isZombie = true ∧
        (k.tryWait p target).kernel.table.slotAt j = .blank := by
  have htry : k.tryWait p target = _ := tryWait_of_attends h.sound hp target
  cases hf : k.table.find p target with
  | pending =>
    left
    rw [htry]
    simp only [hf]
  | noChildren =>
    right; left
    rw [htry]
    simp only [hf]
  | found j q code => exact .inr (.inr ⟨q, code, j, h.collect hp hf⟩)

end Busy

end Kernel

end Lifecycle
