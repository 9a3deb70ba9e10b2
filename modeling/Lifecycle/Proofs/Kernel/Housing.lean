import Lifecycle.Proofs.Kernel.Installing
import Lifecycle.Proofs.Kernel.Lives
/-!
# Address spaces of living processes

A process is given an address space before it becomes ready, with one exception: a process that has
only been allocated can be moved on by a scheduler, and then lives without one until a program
replaces it or it ends. So a living process without an address space was hastened in this way. An
audit reports nobody else, and nobody else is refused a fork while there is room in the table.
-/

namespace Lifecycle

namespace Slot

/-- The process of a slot has an address space if it is alive. -/
def Housed (s : Slot) : Prop := s.status.isAlive = true → s.space.isSome = true

variable {s : Slot}

theorem housed_of_dead (h : s.status.isAlive = false) : s.Housed := by
  intro ha
  simp [h] at ha

theorem housed_of_space {space : AddressSpace} (h : s.space = some space) : s.Housed := by
  intro _
  simp [h]

theorem alive_of_not_housed (h : ¬s.Housed) : s.status.isAlive = true ∧ s.space = none := by
  simpa [Housed] using h

/-- A living process that is given another status keeps its address space. -/
theorem Housed.of_alive {s' : Slot} (h : s.Housed) (ha : s.status.isAlive = true)
    (hspace : s'.space = s.space) : s'.Housed := by
  intro _
  rw [hspace]
  exact h ha

theorem Housed.of_same {s' : Slot} (h : s.Housed) (hst : s'.status = s.status)
    (hspace : s'.space = s.space) : s'.Housed := by
  intro ha
  rw [hst] at ha
  rw [hspace]
  exact h ha

/-- Whoever keeps an address space has one while alive. -/
theorem Keeps.housed {s' : Slot} (h : s.Keeps s') (hs : s.Housed) : s'.Housed := by
  cases h with
  | same space status =>
    rcases status with heq | ha
    · exact hs.of_same heq space
    · exact hs.of_alive ha space
  | lost space dead => exact housed_of_dead dead

end Slot

namespace Table

/-- Whoever has an address space while alive is in the same case in a later table. -/
def Houses (t t' : Table) : Prop := ∀ i, (t.slotAt i).Housed → (t'.slotAt i).Housed

variable {t t' t'' : Table}

theorem Houses.refl (t : Table) : t.Houses t := fun _ h => h

theorem Houses.trans (h : t.Houses t') (h' : t'.Houses t'') : t.Houses t'' :=
  fun i hi => h' i (h i hi)

theorem Keeps.houses (h : t.Keeps t') : t.Houses t' := fun i => (h i).housed

theorem houses_modifySlot {i : Nat} {f : Slot → Slot}
    (hf : (t.slotAt i).Housed → (f (t.slotAt i)).Housed) : t.Houses (t.modifySlot i f) :=
  rel_modifySlot (R := fun s s' => s.Housed → s'.Housed) (fun _ h => h) hf

theorem housed_boot {config : Config} (h : boot config = .ok t) (i : Nat) :
    (t.slotAt i).Housed := by
  obtain ⟨-, -, -, -, h0, hrest⟩ := boot_eq_ok h
  by_cases hi : i = 0
  · rw [hi, h0]
    exact Slot.housed_of_space rfl
  · rw [hrest i hi]
    exact Slot.housed_of_dead rfl

/-! ## Audits -/

private theorem climb_ne_aliveWithoutSpace (steps : Nat) (link : Option Pid) :
    t.climb steps link ≠ some .aliveWithoutSpace := by
  fun_induction t.climb steps link with
  | case6 ancestor hne i hi hz left ih => exact ih
  | _ => simp

theorem not_housed_of_breach? {s : Slot} {later : List Slot}
    (h : t.breach? s later = some .aliveWithoutSpace) : ¬s.Housed := by
  by_contra hx
  have hhoused : ¬(s.status.isAlive = true ∧ s.space.isNone = true) := by
    intro hno
    have hsome := hx hno.1
    simp [Option.isNone_iff_eq_none.mp hno.2] at hsome
  rw [breach?] at h
  simp only [hhoused, if_false] at h
  repeat' split at h
  all_goals first
    | exact climb_ne_aliveWithoutSpace _ _ h
    | simp at h

/-- An audit of a sound table reports a living process without an address space, if anything. -/
theorem Sound.not_housed_of_audit (hs : t.Sound) (hr : t.Ranked) {v : Violation}
    (h : t.audit = some v) : ¬(t.slotAt v.slot).Housed := by
  obtain ⟨before, s, later, hl, hslot, hb⟩ := auditFrom_eq_some h
  rw [hs.audit_breach hr h] at hb
  have hs' : t.slotAt v.slot = s := by simp [hslot, slotAt_eq, hl]
  rw [hs']
  exact not_housed_of_breach? hb

end Table

namespace Kernel

variable {k : Kernel} {p parent : Pid} {space : AddressSpace}

/-! ## Creating -/

theorem houses_bind (k : Kernel) (i : Nat) (p : Pid) (space : AddressSpace) :
    k.table.Houses (k.bind i p space).kernel.table := by
  cases hc : (k.table.slotAt i).status.canBecome .runnable with
  | true =>
    rw [bind_eq hc]
    exact Table.houses_modifySlot fun _ => Slot.housed_of_space rfl
  | false =>
    rw [bind_refused hc]
    exact .refl _

theorem houses_install (k : Kernel) (parent : Pid) (space : AddressSpace) :
    k.table.Houses (k.install parent space).kernel.table := by
  rw [install, Outcome.andThen]
  split
  · exact (k.keeps_reserve parent).houses
  · exact (k.keeps_reserve parent).houses.trans (houses_bind _ _ _ _)

theorem houses_activate (k : Kernel) (p : Pid) (space : AddressSpace) :
    k.table.Houses (k.activate p space).kernel.table := by
  rw [activate]
  split
  · exact .refl _
  · exact k.houses_bind _ p space

theorem houses_activateRegions (k : Kernel) (p : Pid) (regions : List Region) :
    k.table.Houses (k.activateRegions p regions).kernel.table := by
  unfold activateRegions
  dsimp only
  split
  · exact .refl _
  · exact k.houses_activate p _

theorem houses_adoptBuild {α : Type} (k : Kernel) (parent : Pid) (built : Build α) :
    k.table.Houses (k.adoptBuild parent built).kernel.table := by
  rw [adoptBuild]
  split
  · exact .refl _
  · dsimp only
    rw [(Outcome.andThen_tell _ fun p => [.created p parent built.space.pageCount]).2]
    exact k.houses_install parent built.space

theorem houses_create (k : Kernel) (parent : Pid) (regions : List Region) :
    k.table.Houses (k.create parent regions).kernel.table := by
  unfold create
  dsimp only
  split
  · exact .refl _
  · exact k.houses_adoptBuild parent _

theorem houses_fork (k : Kernel) (parent : Pid) :
    k.table.Houses (k.fork parent).kernel.table := by
  rcases k.fork_cases parent with ⟨why, h⟩ | ⟨i, space, -, -, h⟩ <;> rw [h]
  · exact .refl _
  · rw [(Outcome.andThen_tell _ fun p => [.forked parent p]).2]
    exact k.houses_install parent space.copy

theorem houses_exec (k : Kernel) (p : Pid) (image : Bytes) :
    k.table.Houses (k.exec p image).kernel.table := by
  unfold exec
  dsimp only
  split
  · exact .refl _
  · split
    · exact .refl _
    · exact Table.houses_modifySlot fun _ => Slot.housed_of_space rfl

/-! ## Scheduling -/

/-- A step forward deprives nobody of an address space, but a process that is only set up becomes
ready without one. -/
theorem housed_advance {t t' : Table} {i j : Nat} {next : Status}
    (h : t.advance j p next = .ok t') (hn : next.isAlive = true) (hi : (t.slotAt i).Housed) :
    (t'.slotAt i).Housed ∨ j = i ∧ next = .runnable ∧ (t.slotAt i).status = .used := by
  obtain ⟨hc, rfl⟩ := advance_eq_ok h
  rcases used_or_alive hc hn with ⟨hused, hnext⟩ | halive
  · by_cases hij : j = i
    · subst hij
      exact .inr ⟨rfl, hnext, hused⟩
    · have hj : j < t.capacity := Table.lt_capacity_of_inUse (by rw [Slot.inUse_iff, hused]; decide)
      rw [Table.slotAt_modifySlot hj, if_neg hij]
      exact .inl hi
  · exact .inl (Table.houses_modifySlot (fun hs => hs.of_alive halive rfl) i hi)

theorem housed_transition {i : Nat} (next : Status) (h : (k.table.slotAt i).Housed) :
    ((k.transition p next).kernel.table.slotAt i).Housed ∨
      next = .runnable ∧ k.table.slotOf? p = some i ∧ (k.table.slotAt i).status = .used := by
  rcases k.transition_cases p next with ⟨why, hr⟩ | ⟨j, t', hs, hn, ha, hr⟩ <;> rw [hr]
  · exact .inl h
  · rcases housed_advance ha hn h with h' | ⟨rfl, hnext, hused⟩
    · exact .inl h'
    · exact .inr ⟨hnext, hs, hused⟩

/-- A child of a living process can be installed while the table has room. -/
theorem install_alive {i : Nat} (ha : k.table.aliveSlot parent = .ok i) (space : AddressSpace) :
    (∃ q, (k.install parent space).result = .ok q) ∨
      (k.install parent space).result = .error (.refused .tableFull) ∧ k.table.freeSlot? = none := by
  cases hfree : k.table.freeSlot? with
  | none => exact .inr ⟨congrArg Outcome.result (install_full ha hfree), rfl⟩
  | some j => exact .inl ⟨_, (install_seated ha hfree).1⟩

/-- A fork of a running process with an address space fails at most for want of a free slot. -/
theorem fork_running {i : Nat} (hs : k.table.slotOf? p = some i)
    (hr : (k.table.slotAt i).status = .running) (hh : (k.table.slotAt i).Housed) :
    (∃ q, (k.fork p).result = .ok q) ∨
      (k.fork p).result = .error (.refused .tableFull) ∧ k.table.freeSlot? = none := by
  have halive : k.table.aliveSlot p = .ok i := by
    simp only [Table.aliveSlot, hs, hr, Status.isAlive, if_true]
  obtain ⟨space, hspace⟩ := Option.isSome_iff_exists.mp (hh (by rw [hr]; rfl))
  rw [(fork_eq_install hs hr hspace).1]
  exact install_alive halive space.copy

/-- Whoever has an address space can be forked while the table has room. -/
theorem fork_housed {i : Nat} (hs : k.table.slotOf? p = some i)
    (hr : (k.table.slotAt i).status = .running) (hh : (k.table.slotAt i).Housed) :
    (∃ q, (k.fork p).result = .ok q) ∨ (k.fork p).result = .error (.refused .tableFull) :=
  (fork_running hs hr hh).imp_right And.left

end Kernel

/-! ## Whole runs -/

/-- An act takes nobody's address space away, but it may hasten a process that has none. -/
theorem Session.housed_act {s : Session} {i : Nat} (a : Act)
    (h : (s.kernel.table.slotAt i).Housed) :
    ((s.act a).kernel.table.slotAt i).Housed ∨
      ∃ p, a = .serve (.transition p .runnable) ∧ s.kernel.table.slotOf? p = some i ∧
        (s.kernel.table.slotAt i).status = .used := by
  have hkept : s.kernel.table.Houses (s.act a).kernel.table →
      ((s.act a).kernel.table.slotAt i).Housed ∨
        ∃ p, a = .serve (.transition p .runnable) ∧ s.kernel.table.slotOf? p = some i ∧
          (s.kernel.table.slotAt i).status = .used := fun hk => .inl (hk i h)
  cases a with
  | serve r =>
    cases r with
    | transition p next =>
      rcases Kernel.housed_transition next h with h' | ⟨rfl, hs, hused⟩
      · exact .inl h'
      · exact .inr ⟨p, rfl, hs, hused⟩
    | allocate parent => exact hkept (Kernel.keeps_reserve _ parent).houses
    | activate p space => exact hkept (Kernel.houses_activate _ p space)
    | activateRegions p regions => exact hkept (Kernel.houses_activateRegions _ p regions)
    | create parent regions => exact hkept (Kernel.houses_create _ parent regions)
    | spawn parent image => exact hkept (Kernel.houses_adoptBuild _ parent _)
    | fork parent => exact hkept (Kernel.houses_fork _ parent)
    | exec p image => exact hkept (Kernel.houses_exec _ p image)
    | exit p code => exact hkept (Kernel.keeps_exit _ p code).houses
    | kill p => exact hkept (Kernel.keeps_kill _ p).houses
    | tryWait parent target => exact hkept (Kernel.keeps_tryWait _ parent target).houses
    | reap parent child => exact hkept (Kernel.keeps_reap _ parent child).houses
    | _ => exact hkept (.refl _)
  | wait parent target => exact hkept (s.keeps_wait parent target).houses
  | rouse j => exact hkept (s.keeps_rouse j).houses

namespace Chronicle

/-- Whether an act makes a process ready that is only set up. -/
def hastens (c : Chronicle) (l : Life) : Act → Bool
  | .serve (.transition p .runnable) => c.life? p = some l && c.table.status? p = some .used
  | _ => false

/-- Whether a process is made ready by a scheduler before it is given an address space. -/
def hastened (c : Chronicle) (l : Life) : List Act → Bool
  | [] => false
  | a :: rest => c.hastens l a || (c.act a).hastened l rest

variable {c : Chronicle} {config : Config} {k : Kernel}

/-- A process that lives without an address space has done so all along, or it was hastened. -/
theorem not_housed_follow {i : Nat} {acts : List Act}
    (h : ¬((c.follow acts).table.slotAt i).Housed) :
    c.hastened ⟨i, (c.follow acts).since i⟩ acts = true ∨
      ¬(c.table.slotAt i).Housed ∧ c.since i = (c.follow acts).since i := by
  induction acts generalizing c with
  | nil => exact .inr ⟨h, rfl⟩
  | cons a rest ih =>
    have hstep : c.follow (a :: rest) = (c.act a).follow rest := rfl
    rw [hstep] at h ⊢
    rw [hastened, Bool.or_eq_true]
    rcases ih h with hlater | ⟨hno, hsince⟩
    · exact .inl (.inr hlater)
    · by_cases hhoused : (c.table.slotAt i).Housed
      · rcases Session.housed_act a hhoused with h' | ⟨p, rfl, hs, hused⟩
        · exact absurd h' hno
        · have hu : (c.table.slotAt i).inUse = true := by
            rw [Slot.inUse_iff, hused]
            decide
          rw [since_act_of_inUse hu] at hsince
          refine .inl (.inl ?_)
          simp [hastens, life?, Table.status?, hs, hused, hsince]
      · have hu := Slot.inUse_of_alive (Slot.alive_of_not_housed hhoused).1
        rw [since_act_of_inUse hu] at hsince
        exact .inr ⟨hhoused, hsince⟩

/-- Whoever lives without an address space, whatever events follow the setting up of a table, was
hastened. -/
theorem hastened_of_not_housed (hk : Kernel.boot config = .ok k) {acts : List Act} {i : Nat}
    (h : ¬(((start k).follow acts).table.slotAt i).Housed) :
    (start k).hastened ⟨i, ((start k).follow acts).since i⟩ acts = true := by
  rcases not_housed_follow h with hhastened | ⟨hno, -⟩
  · exact hhastened
  · exact absurd (Table.housed_boot (Kernel.boot_eq_ok hk).1 i) hno

/-- Whatever events follow the setting up of a table, a living process has an address space, an
audit does not report it, and a fork while it runs is refused at most for want of room, unless it
was hastened. -/
theorem housing_of_run (hk : Kernel.boot config = .ok k) (acts : List Act) :
    (∀ i, (((start k).follow acts).table.slotAt i).status.isAlive = true →
        (((start k).follow acts).table.slotAt i).space = none →
        (start k).hastened ⟨i, ((start k).follow acts).since i⟩ acts = true) ∧
      (∀ v, ((start k).follow acts).table.audit = some v → v.breach = .aliveWithoutSpace ∧
        (start k).hastened ⟨v.slot, ((start k).follow acts).since v.slot⟩ acts = true) ∧
      ∀ p l, ((start k).follow acts).life? p = some l →
        ((start k).follow acts).table.status? p = some .running →
        (start k).hastened l acts = false →
        (∃ q, (((start k).follow acts).session.serve (.fork p)).2.1 = .ok (.pid q)) ∨
          (((start k).follow acts).session.serve (.fork p)).2.1 =
            .error (.refused .tableFull) := by
  have hs := (Sound.start hk).follow acts
  refine ⟨fun i ha hspace => ?_, fun v hv => ⟨?_, ?_⟩, fun p l hl hst hpatient => ?_⟩
  · refine hastened_of_not_housed hk fun hhoused => ?_
    have hsome := hhoused ha
    simp [hspace] at hsome
  · exact hs.table.audit_breach hs.scene.ranked hv
  · exact hastened_of_not_housed hk (hs.table.not_housed_of_audit hs.scene.ranked hv)
  · obtain ⟨i, hi, rfl⟩ := Option.map_eq_some_iff.mp hl
    simp only [Table.status?, hi, Option.map_some, Option.some.injEq] at hst
    have hhoused : (((start k).follow acts).table.slotAt i).Housed := by
      by_contra hno
      simp [hastened_of_not_housed hk hno] at hpatient
    rcases Kernel.fork_housed hi hst hhoused with ⟨q, hq⟩ | hfull
    · exact .inl ⟨q, by simp [Session.serve, Kernel.serve, Outcome.map, Except.map, hq]⟩
    · exact .inr (by simp [Session.serve, Kernel.serve, Outcome.map, Except.map, hfull])

/-- A process is set up, made ready and made to run by a scheduler. -/
def haste : List Act :=
  [.serve (.allocate ⟨0⟩), .serve (.transition ⟨1⟩ .runnable), .serve (.transition ⟨1⟩ .running)]

theorem housing_of_haste :
    ∃ k, Kernel.boot ⟨4, ⟨0⟩⟩ = .ok k ∧
      ((start k).follow haste).table.audit = some ⟨1, .aliveWithoutSpace⟩ ∧
      (start k).hastened ⟨1, 1⟩ haste = true ∧ (start k).hastened ⟨0, 0⟩ haste = false ∧
      ((∃ q, (((start k).follow haste).session.serve (.fork ⟨0⟩)).2.1 = .ok (.pid q)) ∨
        (((start k).follow haste).session.serve (.fork ⟨0⟩)).2.1 =
          .error (.refused .tableFull)) := by
  have hk : Kernel.boot ⟨4, ⟨0⟩⟩ = .ok _ := rfl
  obtain ⟨-, haudit, hfork⟩ := housing_of_run hk haste
  exact ⟨_, hk, by decide, (haudit ⟨1, .aliveWithoutSpace⟩ (by decide)).2, by decide,
    hfork ⟨0⟩ ⟨0, 0⟩ (by decide) (by decide) (by decide)⟩

/-- A process that was hastened runs without an address space, is reported by an audit and cannot be
forked, although there is room in the table. -/
theorem not_housed_of_haste :
    ∃ s, Session.run ⟨4, ⟨0⟩⟩ haste = .ok s ∧ s.kernel.table.status? ⟨1⟩ = some .running ∧
      s.kernel.table.space? ⟨1⟩ = none ∧ s.kernel.table.audit = some ⟨1, .aliveWithoutSpace⟩ ∧
      (s.serve (.fork ⟨1⟩)).2.1 = .error (.refused (.badStatus ⟨1⟩ .running)) :=
  ⟨_, rfl, by decide, by decide, by decide, rfl⟩

end Chronicle

end Lifecycle
