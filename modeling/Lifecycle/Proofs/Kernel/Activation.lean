import Lifecycle.Proofs.Kernel.Atomicity
import Lifecycle.Proofs.Kernel.Frames
/-!
# Activation

A process that has been set up is activated with an address space. The call asks only whether the
process may become ready, and that is also the case of one that runs or sleeps. So besides the
programs that replace what a running process has, activation is the one way in which a process comes
by another address space than the one it was given first.
-/

namespace Lifecycle

namespace Status

/-- Who may become ready: a process that has been set up, one that runs, and one that sleeps. -/
theorem canBecome_runnable {status : Status} :
    status.canBecome .runnable = true ↔
      status = .used ∨ status = .running ∨ status = .sleeping := by
  cases status <;> decide

end Status

namespace Kernel

variable {k : Kernel} {p : Pid} {space : AddressSpace} {i : Nat}

/-- An activation is refused because there is no such process or because of its status, or it makes
the process ready and binds the address space. -/
theorem activate_cases (k : Kernel) (p : Pid) (space : AddressSpace) :
    k.table.slotOf? p = none ∧ k.activate p space = k.refuse (.noProcess p) ∨
      ∃ i, k.table.slotOf? p = some i ∧
        ((k.table.slotAt i).status.canBecome .runnable = false ∧
            k.activate p space = k.refuse (k.table.badStatus i p) ∨
          (k.table.slotAt i).status.canBecome .runnable = true ∧
            k.activate p space = ⟨.ok (), { k with table := k.table.modifySlot i fun s =>
              { s with status := .runnable, space := some space } },
              [.moved p (k.table.slotAt i).status .runnable]⟩) := by
  rw [activate]
  cases k.table.slotOf? p with
  | none => exact .inl ⟨rfl, rfl⟩
  | some i =>
    right
    refine ⟨i, rfl, ?_⟩
    cases hc : (k.table.slotAt i).status.canBecome .runnable with
    | false => exact .inl ⟨rfl, bind_refused hc p space⟩
    | true => exact .inr ⟨rfl, bind_eq hc p space⟩

/-! ## Who comes by another address space -/

/-- A process that has an address space comes by another one when a program replaces it while it
runs, or when one is bound to it although it runs or sleeps. -/
def Rebinds (k : Kernel) (p : Pid) (space : AddressSpace) : Request → Prop
  | .exec q image => q = p ∧ k.table.status? p = some .running ∧
      (∃ start, (Elf.load image).result = .ok start) ∧ (Elf.load image).space = space
  | .activate q bound => q = p ∧ bound = space ∧
      (k.table.status? p = some .running ∨ k.table.status? p = some .sleeping)
  | .activateRegions q regions => q = p ∧ (AddressSpace.ofRegions regions).result = .ok () ∧
      (AddressSpace.ofRegions regions).space = space ∧
      (k.table.status? p = some .running ∨ k.table.status? p = some .sleeping)
  | _ => False

/-- A request leaves the process of a slot with the address space it has, or without one, gives one to
a process that had none, or brings it by another one. -/
def Disposes (k : Kernel) (r : Request) (t' : Table) (i : Nat) : Prop :=
  (t'.slotAt i).space = (k.table.slotAt i).space ∨ (t'.slotAt i).space = none ∨
    (k.table.slotAt i).space = none ∨
    ∃ q space, (k.table.slotAt i).holds q = true ∧ (t'.slotAt i).space = some space ∧
      k.Rebinds q space r

variable {x : Scene} {r : Request} {t' : Table}

theorem disposes_of_keeps (h : k.table.Keeps t') (i : Nat) : k.Disposes r t' i := by
  rcases (h i).space with hsame | hnone
  · exact .inl hsame
  · exact .inr (.inl hnone)

theorem disposes_refl (k : Kernel) (r : Request) (i : Nat) : k.Disposes r k.table i := .inl rfl

/-- A creation that fails changes nothing, and one that succeeds fills a free slot. -/
theorem disposes_of_gains (h : x.Sound) {parent : Pid} {o : Outcome Pid}
    (hatomic : o.Atomic x.kernel)
    (hgains : ∀ q, o.result = .ok q → x.table.Gains q parent o.kernel.table) (i : Nat) :
    x.kernel.Disposes r o.kernel.table i := by
  cases hr : o.result with
  | error fault =>
    rw [hatomic fault hr]
    exact disposes_refl _ r i
  | ok q =>
    obtain ⟨-, m, space, hfree, -, hslot⟩ := hgains q hr
    by_cases hmi : m = i
    · subst hmi
      have hblank : x.kernel.table.slotAt m = .blank := (h.table.slots m).blank hfree
      right; right; left
      rw [hblank]
      rfl
    · left
      rw [hslot, if_neg hmi]

/-- A scheduler moves processes on, with what they have. -/
theorem disposes_transition (k : Kernel) (p : Pid) (next : Status) (i : Nat) :
    k.Disposes r (k.transition p next).kernel.table i := by
  rcases k.transition_cases p next with ⟨why, h⟩ | ⟨j, t', -, -, hadvance, h⟩ <;> rw [h]
  · exact disposes_refl k r i
  · obtain ⟨-, rfl⟩ := advance_eq_ok hadvance
    exact .inl (Table.rel_modifySlot (R := fun s s' => s'.space = s.space) (fun _ => rfl) rfl i)

/-- An activation that goes through binds an address space to the process. It had none if it had only
been set up. -/
theorem disposes_activate (h : x.Sound) (i : Nat)
    (hr : ∀ j, x.table.slotOf? p = some j →
      (x.table.slotAt j).status = .running ∨ (x.table.slotAt j).status = .sleeping →
      x.kernel.Rebinds p space r) :
    x.kernel.Disposes r (x.kernel.activate p space).kernel.table i := by
  rcases x.kernel.activate_cases p space with
    ⟨-, hk⟩ | ⟨j, hs, ⟨-, hk⟩ | ⟨hc, hk⟩⟩ <;> rw [hk]
  · exact disposes_refl _ r i
  · exact disposes_refl _ r i
  · have hp := Table.holds_of_slotOf? hs
    have hslot : ∀ m, (x.table.modifySlot j fun s =>
        { s with status := .runnable, space := some space }).slotAt m =
        if j = m then { x.table.slotAt j with status := .runnable, space := some space }
        else x.table.slotAt m := Table.slotAt_modifySlot (Table.lt_capacity_of_holds hp) _
    by_cases hji : j = i
    · subst hji
      right; right
      rcases Status.canBecome_runnable.mp hc with hused | hlive
      · exact .inl ((h.table.slots j).no_space (.inr hused))
      · refine .inr ⟨p, space, hp, ?_, hr j hs hlive⟩
        rw [hslot, if_pos rfl]
    · left
      show ((x.table.modifySlot j _).slotAt i).space = _
      rw [hslot, if_neg hji]

theorem disposes_exec (k : Kernel) (p : Pid) (image : Bytes) (i : Nat) :
    k.Disposes (.exec p image) (k.exec p image).kernel.table i := by
  unfold exec
  dsimp only
  cases hbuilt : (Elf.load image).result with
  | error fault => exact disposes_refl k _ i
  | ok start =>
    cases hrunning : k.table.runningSlot p with
    | error why => exact disposes_refl k _ i
    | ok j =>
      obtain ⟨hs, hstatus⟩ := Table.runningSlot_eq_ok hrunning
      have hp := Table.holds_of_slotOf? hs
      have hslot : ∀ m, (k.table.modifySlot j fun s =>
          { s with space := some (Elf.load image).space }).slotAt m =
          if j = m then { k.table.slotAt j with space := some (Elf.load image).space }
          else k.table.slotAt m := Table.slotAt_modifySlot (Table.lt_capacity_of_holds hp) _
      by_cases hji : j = i
      · subst hji
        have hrun : k.table.status? p = some .running := by
          rw [Table.status?, hs, Option.map_some, hstatus]
        refine .inr (.inr (.inr ⟨p, (Elf.load image).space, hp, ?_, rfl, hrun, ⟨start, hbuilt⟩, rfl⟩))
        rw [hslot, if_pos rfl]
      · left
        show ((k.table.modifySlot j _).slotAt i).space = _
        rw [hslot, if_neg hji]

theorem disposes_serve (h : x.Sound) (r : Request) (i : Nat) :
    x.kernel.Disposes r (x.kernel.serve r).kernel.table i := by
  have hstatus : ∀ {p : Pid} {j : Nat}, x.table.slotOf? p = some j →
      (x.table.slotAt j).status = .running ∨ (x.table.slotAt j).status = .sleeping →
      x.kernel.table.status? p = some .running ∨ x.kernel.table.status? p = some .sleeping := by
    intro p j hs hlive
    have hstatus : x.kernel.table.status? p = some (x.table.slotAt j).status := by
      rw [Table.status?, hs, Option.map_some]
    rw [hstatus]
    exact hlive.imp (congrArg some) (congrArg some)
  cases r with
  | allocate parent => exact disposes_of_keeps (x.kernel.keeps_reserve parent) i
  | activate p space =>
    exact disposes_activate h i fun j hs hlive => ⟨rfl, rfl, hstatus hs hlive⟩
  | activateRegions p regions =>
    show x.kernel.Disposes _ (x.kernel.activateRegions p regions).kernel.table i
    unfold activateRegions
    dsimp only
    split
    · exact disposes_refl _ _ i
    · rename_i hbuilt
      exact disposes_activate h i fun j hs hlive => ⟨rfl, hbuilt, rfl, hstatus hs hlive⟩
  | create parent regions =>
    exact disposes_of_gains h atomic_create (fun q hq => create_gains h hq) i
  | spawn parent image =>
    exact disposes_of_gains h atomic_adoptBuild (fun q hq => adoptBuild_gains h hq) i
  | fork parent => exact disposes_of_gains h atomic_fork (fun q hq => fork_gains h hq) i
  | exec p image => exact disposes_exec x.kernel p image i
  | transition p next => exact disposes_transition x.kernel p next i
  | exit p code => exact disposes_of_keeps (x.kernel.keeps_exit p code) i
  | kill p => exact disposes_of_keeps (x.kernel.keeps_kill p) i
  | tryWait parent target => exact disposes_of_keeps (x.kernel.keeps_tryWait parent target) i
  | reap parent child => exact disposes_of_keeps (x.kernel.keeps_reap parent child) i
  | _ => exact disposes_refl _ _ i

end Kernel

namespace Session

variable {config : Config} {s : Session}

/-- Only a request brings a process by another address space. -/
theorem rebinds_of_act (h : s.scene.Sound) {a : Act} {i : Nat} {old new : AddressSpace}
    (hold : (s.kernel.table.slotAt i).space = some old)
    (hnew : ((s.act a).kernel.table.slotAt i).space = some new) (hne : new ≠ old) :
    ∃ p r, a = .serve r ∧ (s.kernel.table.slotAt i).holds p = true ∧ s.kernel.Rebinds p new r := by
  have hkeeps : ¬s.kernel.table.Keeps (s.act a).kernel.table := by
    intro hk
    rcases (hk i).space with hsame | hnone
    · rw [hnew, hold] at hsame
      exact hne (Option.some.inj hsame)
    · rw [hnew] at hnone
      cases hnone
  cases a with
  | wait parent target => exact absurd (s.keeps_wait parent target) hkeeps
  | rouse j => exact absurd (s.keeps_rouse j) hkeeps
  | serve r =>
    have hdisposes : s.kernel.Disposes r (s.kernel.serve r).kernel.table i :=
      Kernel.disposes_serve h r i
    change ((s.kernel.serve r).kernel.table.slotAt i).space = some new at hnew
    rcases hdisposes with hsame | hnone | hnone | ⟨q, space, hq, hspace, hrebinds⟩
    · rw [hnew, hold] at hsame
      exact absurd (Option.some.inj hsame) hne
    · rw [hnew] at hnone
      cases hnone
    · rw [hold] at hnone
      cases hnone
    · obtain rfl : new = space := Option.some.inj (hnew.symm.trans hspace)
      exact ⟨q, r, rfl, hq, hrebinds⟩

/-- What an activation is answered and what it changes is a matter of the status of the process. -/
theorem serve_activate (s : Session) (p : Pid) (space : AddressSpace) :
    ((s.serve (.activate p space)).2.1 = .ok .done ↔
        s.kernel.table.status? p = some .used ∨ s.kernel.table.status? p = some .running ∨
          s.kernel.table.status? p = some .sleeping) ∧
      (∀ i, (s.serve (.activate p space)).2.1 = .ok .done → s.kernel.table.slotOf? p = some i →
        (s.serve (.activate p space)).1 = { s with kernel := { s.kernel with
          table := s.kernel.table.modifySlot i fun slot =>
            { slot with status := .runnable, space := some space } } }) ∧
      (∀ status, s.kernel.table.status? p = some status →
        status = .runnable ∨ status = .zombie →
        (s.serve (.activate p space)).2.1 = .error (.refused (.badStatus p status))) ∧
      (s.kernel.table.status? p = none →
        (s.serve (.activate p space)).2.1 = .error (.refused (.noProcess p))) ∧
      ∀ fault, (s.serve (.activate p space)).2.1 = .error fault →
        (s.serve (.activate p space)).1 = s := by
  have hresult : (s.serve (.activate p space)).2.1 =
      (s.kernel.activate p space).result.map fun _ => .done := rfl
  have hafter : (s.serve (.activate p space)).1 =
      { s with kernel := (s.kernel.activate p space).kernel } := rfl
  rw [hresult, hafter, Table.status?]
  rcases s.kernel.activate_cases p space with
    ⟨hslot, hk⟩ | ⟨i, hslot, ⟨hc, hk⟩ | ⟨hc, hk⟩⟩ <;> rw [hk, hslot]
  · simp [Kernel.refuse, Kernel.fail, Except.map]
  · have hno := mt Status.canBecome_runnable.mpr (by rw [hc]; decide)
    simp [Kernel.refuse, Kernel.fail, Except.map, Table.badStatus, hno]
  · have hyes := Status.canBecome_runnable.mp hc
    have hno : ¬(s.kernel.table.slotAt i).status = .runnable ∧
        ¬(s.kernel.table.slotAt i).status = .zombie := by
      rcases hyes with hst | hst | hst <;> simp [hst]
    simp [Except.map, hyes, hno]

/-- An activation goes through exactly if the process has been set up, runs or sleeps. The process is
then ready and has the given address space, and nothing else changes. A process that is ready or has
ended is refused with its status, and an unknown one as such; whenever an activation fails, nothing
changes. Whatever happens to a process that has an address space, it comes by another one only if a
program replaces it, or if one is bound although the process runs or sleeps. -/
theorem activation_of_reachable (h : Reachable config s) (p : Pid) (space : AddressSpace) :
    ((s.serve (.activate p space)).2.1 = .ok .done ↔
        s.kernel.table.status? p = some .used ∨ s.kernel.table.status? p = some .running ∨
          s.kernel.table.status? p = some .sleeping) ∧
      (∀ i, (s.serve (.activate p space)).2.1 = .ok .done → s.kernel.table.slotOf? p = some i →
        (s.serve (.activate p space)).1 = { s with kernel := { s.kernel with
          table := s.kernel.table.modifySlot i fun slot =>
            { slot with status := .runnable, space := some space } } }) ∧
      (∀ status, s.kernel.table.status? p = some status →
        status = .runnable ∨ status = .zombie →
        (s.serve (.activate p space)).2.1 = .error (.refused (.badStatus p status))) ∧
      (s.kernel.table.status? p = none →
        (s.serve (.activate p space)).2.1 = .error (.refused (.noProcess p))) ∧
      (∀ fault, (s.serve (.activate p space)).2.1 = .error fault →
        (s.serve (.activate p space)).1 = s) ∧
      ∀ a i old new, (s.kernel.table.slotAt i).space = some old →
        ((s.act a).kernel.table.slotAt i).space = some new → new ≠ old →
        ∃ q r, a = .serve r ∧ (s.kernel.table.slotAt i).holds q = true ∧
          s.kernel.Rebinds q new r := by
  have hs : s.scene.Sound := h.sound
  obtain ⟨hok, hchange, hrefused, hunknown, hfailed⟩ := s.serve_activate p space
  exact ⟨hok, hchange, hrefused, hunknown, hfailed, fun a i old new => rebinds_of_act hs⟩

/-- A child with two pages runs. -/
def lodging : List Act :=
  [.serve (.create ⟨0⟩ [⟨⟨0x1000⟩, ⟨0x3000⟩, .ofBits 10⟩]), .serve (.transition ⟨1⟩ .running)]

/-- An address space of a single page. -/
def cell : AddressSpace := (AddressSpace.ofRegions [⟨⟨0x5000⟩, ⟨0x6000⟩, .ofBits 6⟩]).space

theorem activation_of_lodging :
    ∃ s, run ⟨4, ⟨0⟩⟩ lodging = .ok s ∧
      (s.serve (.activate ⟨1⟩ cell)).2.1 = .ok .done ∧
      (s.serve (.activate ⟨1⟩ cell)).1 = { s with kernel := { s.kernel with
        table := s.kernel.table.modifySlot 1 fun slot =>
          { slot with status := .runnable, space := some cell } } } ∧
      (∃ q r, Act.serve (.activate ⟨1⟩ cell) = .serve r ∧
        (s.kernel.table.slotAt 1).holds q = true ∧ s.kernel.Rebinds q cell r) ∧
      (s.serve (.activate ⟨2⟩ cell)).2.1 = .error (.refused (.noProcess ⟨2⟩)) := by
  have hrun : run ⟨4, ⟨0⟩⟩ lodging = .ok _ := rfl
  obtain ⟨hok, hchange, -, -, -, hrebinds⟩ := activation_of_reachable (.run hrun) ⟨1⟩ cell
  obtain ⟨-, -, -, hunknown, -, -⟩ := activation_of_reachable (.run hrun) ⟨2⟩ cell
  have hdone := hok.mpr (.inr (.inl rfl))
  exact ⟨_, hrun, hdone, hchange 1 hdone rfl,
    hrebinds (.serve (.activate ⟨1⟩ cell)) 1 _ cell rfl rfl (by decide), hunknown rfl⟩

/-- A process that runs is activated: it stops running, and the address space that it had been given
is replaced although no program was. -/
theorem rebound_of_lodging :
    ∃ s, run ⟨4, ⟨0⟩⟩ lodging = .ok s ∧ s.kernel.table.status? ⟨1⟩ = some .running ∧
      (s.kernel.table.space? ⟨1⟩).map AddressSpace.pageCount = some 2 ∧
      (s.serve (.activate ⟨1⟩ cell)).2.1 = .ok .done ∧
      (s.serve (.activate ⟨1⟩ cell)).1.kernel.table.status? ⟨1⟩ = some .runnable ∧
      ((s.serve (.activate ⟨1⟩ cell)).1.kernel.table.space? ⟨1⟩).map AddressSpace.pageCount =
        some 1 :=
  ⟨_, rfl, by decide, by decide, rfl, by decide, by decide⟩

end Session

end Lifecycle
