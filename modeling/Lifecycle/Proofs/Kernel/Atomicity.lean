import Lifecycle.Proofs.Kernel.Integrity
/-!
# Calls that fail change nothing

Some calls write before their last check: creation takes a slot and then binds an address space,
ending a process makes it a zombie and then looks for the adopter. In a sound table these late
checks always pass, so a call that is answered by a fault leaves slots, identities and channels as
they were.
-/

namespace Lifecycle

namespace Outcome

variable {α β : Type} {k : Kernel}

/-- Unless the step succeeded, the kernel is what it was. -/
def Atomic (o : Outcome α) (k : Kernel) : Prop := ∀ fault, o.result = .error fault → o.kernel = k

theorem atomic_fail (fault : Fault) : (k.fail fault : Outcome α).Atomic k := by
  intro _ _
  rfl

theorem atomic_refuse (why : Refusal) : (k.refuse why : Outcome α).Atomic k :=
  atomic_fail (.refused why)

theorem atomic_of_ok {o : Outcome α} {a : α} (h : o.result = .ok a) : o.Atomic k := by
  intro fault hf
  simp [h] at hf

theorem Atomic.map {o : Outcome α} (h : o.Atomic k) (f : α → β) : (o.map f).Atomic k := by
  intro fault hf
  cases hr : o.result with
  | error why => exact h why hr
  | ok a => simp [Outcome.map, hr, Except.map] at hf

/-- A second step that cannot fail after the first one may write where it likes. -/
theorem Atomic.andThen {o : Outcome α} {f : α → Kernel → Outcome β} (h : o.Atomic k)
    (hf : ∀ a, o.result = .ok a → ∃ b, (f a o.kernel).result = .ok b) :
    (o.andThen f).Atomic k := by
  intro fault hfault
  rw [Outcome.andThen] at hfault ⊢
  cases hr : o.result with
  | error why => exact h why hr
  | ok a =>
    obtain ⟨b, hb⟩ := hf a hr
    simp [hr, hb] at hfault

end Outcome

namespace Kernel

open Outcome

variable {x : Scene} {k : Kernel} {p parent : Pid} {space : AddressSpace}

/-! ## Creating -/

theorem atomic_bind {i : Nat} : (k.bind i p space).Atomic k := by
  rw [bind]
  split
  · exact atomic_refuse _
  · exact atomic_of_ok rfl

theorem atomic_reserve : (k.reserve parent).Atomic k := by
  rcases k.reserve_cases parent with ⟨why, h⟩ | ⟨i, j, -, -, h⟩ <;> rw [h]
  · exact atomic_refuse why
  · exact atomic_of_ok rfl

/-- Whatever has been reserved can be given an address space. -/
theorem bind_of_reserve {i : Nat} (h : (k.reserve parent).result = .ok (i, p))
    (space : AddressSpace) : ((k.reserve parent).kernel.bind i p space).result = .ok () := by
  rcases k.reserve_cases parent with ⟨why, hr⟩ | ⟨j, m, hfree, -, hr⟩ <;> rw [hr] at h ⊢
  · simp [refuse, fail] at h
  · obtain ⟨rfl, rfl⟩ := Prod.mk.inj (Except.ok.inj h)
    exact bind_reserved hfree parent space

theorem atomic_install : (k.install parent space).Atomic k := by
  refine atomic_reserve.andThen fun a ha => ⟨a.2, ?_⟩
  have hbind := bind_of_reserve ha space
  simp [Outcome.map, hbind, Except.map]

theorem atomic_activate : (k.activate p space).Atomic k := by
  rw [activate]
  split
  · exact atomic_refuse _
  · exact atomic_bind

theorem atomic_activateRegions {regions : List Region} :
    (k.activateRegions p regions).Atomic k := by
  intro fault hf
  unfold activateRegions at hf ⊢
  dsimp only at hf ⊢
  split at hf
  · rfl
  · exact atomic_activate fault hf

theorem atomic_adoptBuild {α : Type} {built : Build α} : (k.adoptBuild parent built).Atomic k := by
  intro fault hf
  rw [adoptBuild] at hf ⊢
  split at hf
  · rfl
  · exact atomic_install.andThen (fun a _ => ⟨a, rfl⟩) fault hf

theorem atomic_create {regions : List Region} : (k.create parent regions).Atomic k := by
  intro fault hf
  unfold create at hf ⊢
  dsimp only at hf ⊢
  split at hf
  · rfl
  · exact atomic_adoptBuild fault hf

theorem atomic_fork : (k.fork parent).Atomic k := by
  rcases k.fork_cases parent with ⟨why, h⟩ | ⟨i, space, -, -, h⟩ <;> rw [h]
  · exact atomic_refuse why
  · exact atomic_install.andThen fun a _ => ⟨a, rfl⟩

theorem atomic_exec {image : Bytes} : (k.exec p image).Atomic k := by
  intro fault hf
  unfold exec at hf ⊢
  dsimp only at hf ⊢
  split at hf
  · rfl
  · split at hf
    · rfl
    · simp at hf

/-! ## Changing and ending -/

theorem atomic_transition {next : Status} : (k.transition p next).Atomic k := by
  rcases k.transition_cases p next with ⟨why, h⟩ | ⟨i, t', -, -, -, h⟩ <;> rw [h]
  · exact atomic_refuse why
  · exact atomic_of_ok rfl

theorem atomic_exit (h : x.Sound) (code : ExitCode) : (x.kernel.exit p code).Atomic x.kernel := by
  rcases x.kernel.exit_cases p code with ⟨why, hr⟩ | hr | ⟨i, told, hs, -, hne, hr⟩ <;> rw [hr]
  · exact atomic_refuse why
  · exact atomic_fail _
  · exact atomic_of_ok (finish_ok h (Table.holds_of_slotOf? hs) hne code told)

theorem atomic_kill : (k.kill p).Atomic k := by
  rw [kill]
  split
  · exact atomic_refuse _
  · split
    · exact atomic_refuse _
    · exact atomic_of_ok rfl

/-! ## Collecting -/

theorem atomic_collect {i : Nat} {code : ExitCode} : (k.collect parent i p code).Atomic k := by
  rw [collect]
  split
  · exact atomic_fail _
  · exact atomic_of_ok rfl

theorem atomic_tryWait {target : Target} : (k.tryWait parent target).Atomic k := by
  rcases k.tryWait_cases parent target with ⟨why, h⟩ | h | ⟨i, p, code, -, h⟩ <;> rw [h]
  · exact atomic_refuse why
  · exact atomic_of_ok rfl
  · exact atomic_collect.map _

theorem atomic_reap {child : Pid} : (k.reap parent child).Atomic k := by
  rcases k.reap_cases parent child with ⟨why, h⟩ | ⟨i, code, -, -, -, -, -, h⟩ <;> rw [h]
  · exact atomic_refuse why
  · exact atomic_collect

theorem atomic_look {c : Caller} : (k.look c).Atomic k := by
  rcases k.look_cases c with ⟨why, h⟩ | ⟨i, p, code, -, h⟩ | ⟨-, -, h⟩ <;> rw [h]
  · exact atomic_refuse why
  · exact atomic_collect.map _
  · exact atomic_of_ok rfl

theorem atomic_wait {target : Target} : (k.wait parent target).Atomic k := by
  rw [wait]
  split
  · exact atomic_refuse _
  · exact atomic_look

theorem atomic_serve (h : x.Sound) (r : Request) : (x.kernel.serve r).Atomic x.kernel := by
  cases r with
  | allocate parent => exact (atomic_reserve.map _).map _
  | activate p space => exact atomic_activate.map _
  | activateRegions p regions => exact atomic_activateRegions.map _
  | create parent regions => exact atomic_create.map _
  | spawn parent image => exact atomic_adoptBuild.map _
  | fork parent => exact atomic_fork.map _
  | exec p image => exact atomic_exec.map _
  | transition p next => exact atomic_transition.map _
  | exit p code => exact (atomic_exit h code).map _
  | kill p => exact atomic_kill.map _
  | tryWait parent target => exact atomic_tryWait.map _
  | reap parent child => exact atomic_reap.map _
  | _ => exact atomic_of_ok rfl

end Kernel

namespace Session

variable {config : Config} {s : Session}

/-- Requests that fail and waits that fail at once leave slots, identities, channels and blocked
callers as they were. No check fails after the first write: a reserved slot can be given an address
space, and the adopter is found when a process has become a zombie. -/
theorem reachable_atomicity (h : Reachable config s) :
    (∀ r fault, (s.serve r).2.1 = .error fault → (s.serve r).1 = s) ∧
      (∀ parent target fault, (s.wait parent target).2.1 = .returned (.error fault) →
        (s.wait parent target).1 = { s with nextId := s.nextId + 1 }) ∧
      (∀ parent space i p, (s.kernel.reserve parent).result = .ok (i, p) →
        ((s.kernel.reserve parent).kernel.bind i p space).result = .ok ()) ∧
      ∀ i p code told, (s.kernel.table.slotAt i).holds p = true → p ≠ s.kernel.table.adopter →
        (s.kernel.finish i p code told).result = .ok () := by
  refine ⟨fun r fault hf => ?_, fun parent target fault hf => ?_,
    fun parent space i p hr => Kernel.bind_of_reserve hr space,
    fun i p code told hp hne => Kernel.finish_ok h.sound hp hne code told⟩
  · have hk : (s.kernel.serve r).kernel = s.kernel := Kernel.atomic_serve h.sound r fault hf
    simp only [serve, hk]
  · simp only [wait] at hf ⊢
    cases hr : (s.kernel.wait parent target).result with
    | error why => simp [Kernel.atomic_wait why hr]
    | ok waiting => cases waiting <;> simp [hr] at hf

/-- The table is full, one process has ended and nobody has collected it. -/
def crowding : List Act :=
  [.serve (.create ⟨7⟩ []), .serve (.create ⟨7⟩ []), .serve (.transition ⟨1⟩ .running),
    .serve (.exit ⟨1⟩ 5)]

theorem atomicity_of_crowding :
    ∃ s, run ⟨3, ⟨7⟩⟩ crowding = .ok s ∧
      (s.serve (.create ⟨7⟩ [])).2.1 = .error (.refused .tableFull) ∧
      (s.serve (.create ⟨7⟩ [])).1 = s ∧
      (s.serve (.exit ⟨7⟩ 1)).2.1 = .error (.adopterExit ⟨7⟩ 1) ∧ (s.serve (.exit ⟨7⟩ 1)).1 = s ∧
      (s.wait ⟨0⟩ .any).2.1 = .returned (.error (.refused .noChildren)) ∧
      (s.wait ⟨0⟩ .any).1 = { s with nextId := s.nextId + 1 } := by
  have hrun : run ⟨3, ⟨7⟩⟩ crowding = .ok _ := rfl
  obtain ⟨hserve, hwait, -, -⟩ := reachable_atomicity (.run hrun)
  exact ⟨_, hrun, rfl, hserve (.create ⟨7⟩ []) _ rfl, rfl, hserve (.exit ⟨7⟩ 1) _ rfl, rfl,
    hwait ⟨0⟩ .any _ rfl⟩

end Session

end Lifecycle
