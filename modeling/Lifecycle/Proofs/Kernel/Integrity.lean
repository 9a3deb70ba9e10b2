import Lifecycle.Proofs.Kernel.Coherence
import Lifecycle.Proofs.Table.Lineage
/-!
# Reachable sessions are sound

Whatever course events take, the scene of a session stays sound. So its table is in order, with the
parent links leading up to the adopter, and every identity is accounted for: a process gets one that
nobody else has, and no call finds the table in contradiction with itself.
-/

namespace Lifecycle

namespace Kernel

theorem boot_eq_ok {config : Config} {k : Kernel} (h : boot config = .ok k) :
    Table.boot config = .ok k.table ∧ k.channels = .silent config.capacity := by
  rw [boot] at h
  cases ht : Table.boot config with
  | error why => simp [ht, Except.map] at h
  | ok t =>
    simp only [ht, Except.map, Except.ok.injEq] at h
    subst h
    exact ⟨rfl, rfl⟩

/-- Every configuration with room for the adopter can be set up. -/
theorem exists_boot {config : Config} (h : 0 < config.capacity) : ∃ k, boot config = .ok k := by
  obtain ⟨n, hn⟩ := Nat.exists_eq_succ_of_ne_zero (Nat.pos_iff_ne_zero.mp h)
  unfold boot Table.boot
  rw [hn]
  exact ⟨_, rfl⟩

end Kernel

namespace Session

variable {config : Config} {s : Session}

/-- The session after some events on a new table. -/
def run (config : Config) (acts : List Act) : Except Refusal Session :=
  (Kernel.boot config).map fun k => (start k).follow acts

theorem Reachable.run {acts : List Act} (h : run config acts = .ok s) : Reachable config s := by
  rw [Session.run] at h
  cases hk : Kernel.boot config with
  | error why => simp [hk, Except.map] at h
  | ok k =>
    simp only [hk, Except.map, Except.ok.injEq] at h
    subst h
    exact (Reachable.boot hk).follow acts

theorem Reachable.sound (h : Reachable config s) : s.scene.Sound := by
  induction h with
  | @boot k hk =>
    obtain ⟨ht, -⟩ := Kernel.boot_eq_ok hk
    obtain ⟨-, -, -, -, h0, hrest⟩ := Table.boot_eq_ok ht
    refine ⟨.boot ht, .boot ht, .boot ht, fun i => ?_, fun w hw => by simp [scene, start] at hw⟩
    show (k.table.slotAt i).waiters = 0
    by_cases hi : i = 0
    · rw [hi, h0]
      rfl
    · rw [hrest i hi]
      rfl
  | act a _ ih => exact ih.moves (moves_act ih a)

theorem Reachable.fixed (h : Reachable config s) :
    s.kernel.table.capacity = config.capacity ∧ s.kernel.table.adopter = config.adopter := by
  induction h with
  | boot hk =>
    obtain ⟨-, hcap, hadopter, -⟩ := Table.boot_eq_ok (Kernel.boot_eq_ok hk).1
    exact ⟨hcap, hadopter⟩
  | @act s a hr ih =>
    refine (moves_act hr.sound a).keep (P := fun x => x.table.capacity = config.capacity ∧
      x.table.adopter = config.adopter) (fun hx hm => ?_) ih
    exact ⟨hm.fixed.1.trans hx.1, hm.fixed.2.trans hx.2⟩

/-- The table of every session is sound, parent links lead from every process to the adopter past
living processes, and an audit reports at most that a living process has no address space. -/
theorem reachable_integrity (h : Reachable config s) :
    s.kernel.table.capacity = config.capacity ∧ s.kernel.table.adopter = config.adopter ∧
      s.kernel.table.Sound ∧
      (∀ i p, (s.kernel.table.slotAt i).holds p = true →
        ∃ line, s.kernel.table.Ancestry p line ∧ (p :: line).Nodup ∧
          ∀ q ∈ line, s.kernel.table.Living q) ∧
      ∀ v, s.kernel.table.audit = some v → v.breach = .aliveWithoutSpace := by
  have hs := h.sound
  refine ⟨h.fixed.1, h.fixed.2, hs.table, fun i p hp => ?_, fun v hv => ?_⟩
  · exact hs.table.exists_ancestry hs.ranked hp
  · exact hs.table.audit_breach hs.ranked hv

/-- A process makes another one ready that has no address space, and ends. -/
def orphaning : List Act :=
  [.serve (.create ⟨7⟩ []), .serve (.allocate ⟨0⟩), .serve (.transition ⟨1⟩ .runnable),
    .serve (.transition ⟨0⟩ .running), .serve (.exit ⟨0⟩ 3)]

theorem integrity_of_orphaning :
    ∃ s, run ⟨4, ⟨7⟩⟩ orphaning = .ok s ∧
      s.kernel.table.slots.map (·.parent) = [none, some ⟨7⟩, some ⟨7⟩, none] ∧
      s.kernel.table.audit = some ⟨2, .aliveWithoutSpace⟩ ∧ s.kernel.table.Sound ∧
      ∀ v, s.kernel.table.audit = some v → v.breach = .aliveWithoutSpace := by
  have hrun : run ⟨4, ⟨7⟩⟩ orphaning = .ok _ := rfl
  obtain ⟨-, -, hsound, -, haudit⟩ := reachable_integrity (.run hrun)
  exact ⟨_, hrun, by decide, by decide, hsound, haudit⟩

/-- A new process gets a fresh identity. -/
theorem fresh_of_born (h : s.scene.Sound) {a : Act} {p : Pid} (hb : s.deed? a = some (.born p)) :
    s.kernel.table.Fresh p := by
  have hmoves := moves_act h a
  rw [hb] at hmoves
  obtain ⟨x, y, hx, hborn, -⟩ := Scene.Moves.split hmoves
  have hxs := h.moves hx
  have hc : s.kernel.table.Continues x.table := hx.continues
  cases hborn with
  | take free living =>
    obtain ⟨hi, hu, -⟩ := Table.freeSlot?_eq_some.mp free
    have hfresh := hxs.accounted.issue_fresh hxs.table hi hu
    refine ⟨fun he => hfresh.ne_adopter (he.trans hc.adopter.symm), fun j => ?_, fun j => ?_, ?_⟩
    · rw [← (hc.slots j).holds]
      exact hfresh.unheld j
    · rw [← (hc.slots j).parent]
      exact hfresh.no_parent j
    · rw [← hc.capacity]
      exact hfresh.lt_capacity

/-- The numbers that the pool has counted past are accounted for, new processes get fresh ones, and
nothing that is cleared away contradicts the table or the pool. -/
theorem reachable_accounting (h : Reachable config s) :
    s.kernel.table.capacity = config.capacity ∧ s.kernel.table.adopter = config.adopter ∧
      s.kernel.table.Accounted ∧
      (∀ a p, s.deed? a = some (.born p) → s.kernel.table.Fresh p) ∧
      ∀ a, s.fault? a ≠ some .corrupt :=
  ⟨h.fixed.1, h.fixed.2, h.sound.accounted, fun _ _ hb => fresh_of_born h.sound hb,
    fault_coherent h.sound⟩

/-- The adopter's number is skipped, and the number of a child that was collected is issued again.
-/
def recycling : List Act :=
  [.serve (.create ⟨1⟩ []), .serve (.create ⟨1⟩ []), .serve (.transition ⟨0⟩ .running),
    .serve (.exit ⟨0⟩ 3), .serve (.reap ⟨1⟩ ⟨0⟩)]

theorem accounting_of_recycling :
    ∃ s, run ⟨4, ⟨1⟩⟩ recycling = .ok s ∧ s.kernel.table.pool = ⟨3, [⟨0⟩], ⟨1⟩⟩ ∧
      s.deed? (.serve (.allocate ⟨2⟩)) = some (.born ⟨0⟩) ∧ s.kernel.table.Accounted ∧
      s.kernel.table.Fresh ⟨0⟩ := by
  have hrun : run ⟨4, ⟨1⟩⟩ recycling = .ok _ := rfl
  obtain ⟨-, -, haccounted, hfresh, -⟩ := reachable_accounting (.run hrun)
  refine ⟨_, hrun, by decide, ?_, haccounted, hfresh (.serve (.allocate ⟨2⟩)) ⟨0⟩ ?_⟩ <;> rfl

end Session

end Lifecycle
