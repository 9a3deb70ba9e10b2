import Lifecycle.Proofs.Kernel.Acts
/-!
# No contradictions

A call that finds the table in contradiction with itself is answered by a fault of its own. Only
clearing away a child can raise it. On a sound scene no call does, whether it collects a child at
once or at the end of a sleep.
-/

namespace Lifecycle

/-! ## Building address spaces -/

private theorem error_coherent {α β : Type} {e : Except Fault α} {fault : Fault}
    (h : e ≠ .error .corrupt) (he : e = .error fault) :
    (.error fault : Except Fault β) ≠ .error .corrupt := by
  intro hc
  rw [Except.error.inj hc] at he
  exact h he

namespace AddressSpace

theorem insert_coherent (s : AddressSpace) (r : Region) : s.insert r ≠ .error .corrupt := by
  have hcovering : Area.covering r ≠ .error .corrupt := by
    rw [Area.covering]
    split
    · simp
    · rw [PageRange.between]
      split <;> simp [Except.map]
  rw [insert]
  split
  · simp
  · split
    · simp
    · split
      · rename_i fault hf
        exact error_coherent hcovering hf
      · rw [push]
        dsimp only
        split
        · simp
        · split <;> simp

theorem insertAll_coherent (s : AddressSpace) (regions : List Region) :
    (s.insertAll regions).result ≠ .error .corrupt := by
  induction regions generalizing s with
  | nil => simp [insertAll]
  | cons r rest ih =>
    rw [insertAll]
    cases hr : s.insert r with
    | error fault => exact error_coherent (s.insert_coherent r) hr
    | ok s' => exact ih s'

end AddressSpace

namespace Elf

theorem Header.read_coherent (file : Bytes) : Header.read file ≠ .error .corrupt := by
  rw [read]
  repeat' split
  all_goals simp [defect]

theorem Header.checkTable_coherent (h : Header) (size : Nat) :
    h.checkTable size ≠ .error .corrupt := by
  rw [checkTable]
  repeat' split
  all_goals simp [defect]

theorem Segment.region_coherent (s : Segment) (size : Nat) : s.region size ≠ .error .corrupt := by
  unfold region
  dsimp only
  repeat' split
  all_goals simp [defect]

theorem Layout.add_coherent (l : Layout) (r : Region) : l.add r ≠ .error .corrupt := by
  rw [add]
  cases hi : l.space.insert r with
  | error fault => exact error_coherent (l.space.insert_coherent r) hi
  | ok space =>
    dsimp only
    split <;> simp

theorem Layout.place_coherent (l : Layout) (h : Header) (file : Bytes) (i : Nat) :
    l.place h file i ≠ .error .corrupt := by
  rw [place]
  split
  · simp [defect]
  · dsimp only
    split
    · split
      · cases hr : (h.segment file i).region file.size with
        | error fault => exact error_coherent (Segment.region_coherent _ _) hr
        | ok r => exact l.add_coherent r
      · simp
    · simp [defect]

theorem Layout.placeAll_coherent (l : Layout) (h : Header) (file : Bytes) (is : List Nat) :
    (l.placeAll h file is).2 ≠ .error .corrupt := by
  induction is generalizing l with
  | nil => simp [placeAll]
  | cons i rest ih =>
    rw [placeAll]
    cases hp : l.place h file i with
    | error fault => exact error_coherent (l.place_coherent h file i) hp
    | ok l' => exact ih l'

theorem finish_coherent (l : Layout) (entry : Nat) :
    (finish l entry).result ≠ .error .corrupt := by
  unfold finish
  split
  · simp
  · rename_i bottom top _
    have hall := l.space.insertAll_coherent [
      ⟨⟨bottom⟩, ⟨top⟩, ⟨true, true, false, true⟩⟩,
      ⟨⟨trapContext⟩, ⟨trampoline⟩, ⟨true, true, false, false⟩⟩]
    dsimp only
    generalize l.space.insertAll _ = built at hall
    cases hb : built.result with
    | error fault => exact error_coherent hall hb
    | ok _ => simp [Except.map]

theorem load_coherent (file : Bytes) : (load file).result ≠ .error .corrupt := by
  rw [load]
  cases hr : Header.read file with
  | error fault => exact error_coherent (Header.read_coherent file) hr
  | ok h =>
    dsimp only
    cases ht : h.checkTable file.size with
    | error fault => exact error_coherent (h.checkTable_coherent file.size) ht
    | ok _ =>
      have hplaced := Layout.start.placeAll_coherent h file (List.range h.count)
      dsimp only
      generalize Layout.start.placeAll h file (List.range h.count) = placed at hplaced ⊢
      obtain ⟨l, result⟩ := placed
      cases result with
      | error fault => exact error_coherent hplaced rfl
      | ok _ => exact finish_coherent l h.entry

end Elf

/-! ## Calls -/

namespace Outcome

variable {α β : Type}

/-- The call did not find the table in contradiction with itself. -/
def Coherent (o : Outcome α) : Prop := o.result ≠ .error .corrupt

theorem coherent_refuse {k : Kernel} {why : Refusal} : (k.refuse why : Outcome α).Coherent := by
  simp [Coherent, Kernel.refuse, Kernel.fail]

theorem coherent_ok {a : α} {k : Kernel} {events : List Event} :
    (⟨.ok a, k, events⟩ : Outcome α).Coherent := by
  simp [Coherent]

theorem Coherent.of_result {o : Outcome α} {o' : Outcome β} (h : o.Coherent)
    (hr : ∀ fault, o'.result = .error fault → o.result = .error fault) : o'.Coherent :=
  fun hc => h (hr _ hc)

theorem Coherent.map {o : Outcome α} (h : o.Coherent) (f : α → β) : (o.map f).Coherent := by
  refine h.of_result fun fault hf => ?_
  rw [Outcome.map] at hf
  cases hr : o.result <;> simp_all [Except.map]

theorem Coherent.andThen {o : Outcome α} {f : α → Kernel → Outcome β} (h : o.Coherent)
    (hf : ∀ a k, (f a k).Coherent) : (o.andThen f).Coherent := by
  rw [Outcome.andThen]
  cases hr : o.result with
  | error fault => exact error_coherent h hr
  | ok a => exact hf a o.kernel

end Outcome

namespace Kernel

open Outcome

variable {x : Scene} {k : Kernel} {i : Nat} {p parent : Pid}

theorem coherent_bind {space : AddressSpace} : (k.bind i p space).Coherent := by
  rw [bind]
  split
  · exact coherent_refuse
  · exact coherent_ok

theorem coherent_reserve : (k.reserve parent).Coherent := by
  rcases k.reserve_cases parent with ⟨why, h⟩ | ⟨i, j, -, -, h⟩ <;> rw [h]
  · exact coherent_refuse
  · exact coherent_ok

theorem coherent_install {space : AddressSpace} : (k.install parent space).Coherent :=
  coherent_reserve.andThen fun _ _ => coherent_bind.map _

theorem coherent_activate {space : AddressSpace} : (k.activate p space).Coherent := by
  rw [activate]
  split
  · exact coherent_refuse
  · exact coherent_bind

theorem coherent_adoptBuild {α : Type} {built : Build α} (h : built.result ≠ .error .corrupt) :
    (k.adoptBuild parent built).Coherent := by
  rw [adoptBuild]
  split
  · rename_i fault hf
    exact error_coherent h hf
  · have hmade : ((k.install parent built.space).andThen fun p k =>
        ⟨.ok p, k, [.created p parent built.space.pageCount]⟩).Coherent :=
      coherent_install.andThen fun _ _ => coherent_ok
    exact hmade.of_result fun _ hf => hf

theorem coherent_create {regions : List Region} : (k.create parent regions).Coherent := by
  unfold create
  dsimp only
  split
  · simp [Coherent]
  · exact coherent_adoptBuild (AddressSpace.insertAll_coherent .empty regions)

theorem coherent_activateRegions {regions : List Region} :
    (k.activateRegions p regions).Coherent := by
  unfold activateRegions AddressSpace.ofRegions
  dsimp only
  split
  · rename_i fault hf
    exact error_coherent (AddressSpace.insertAll_coherent .empty regions) hf
  · have hbound : (k.activate p (AddressSpace.empty.insertAll regions).space).Coherent :=
      coherent_activate
    exact hbound.of_result fun _ hf => hf

theorem coherent_fork : (k.fork parent).Coherent := by
  rcases k.fork_cases parent with ⟨why, h⟩ | ⟨i, space, -, -, h⟩ <;> rw [h]
  · exact coherent_refuse
  · exact coherent_install.andThen fun _ _ => coherent_ok

theorem coherent_exec {image : Bytes} : (k.exec p image).Coherent := by
  rw [exec]
  dsimp only
  split
  · rename_i fault hf
    exact error_coherent (Elf.load_coherent image) hf
  · split
    · simp [Coherent]
    · exact coherent_ok

theorem coherent_transition {next : Status} : (k.transition p next).Coherent := by
  rcases k.transition_cases p next with ⟨why, h⟩ | ⟨i, t', -, -, -, h⟩ <;> rw [h]
  · exact coherent_refuse
  · exact coherent_ok

theorem coherent_finish {code : ExitCode} {told : List Event} :
    (k.finish i p code told).Coherent := by
  rw [finish]
  dsimp only
  split
  · simp [Coherent]
  · exact coherent_ok

theorem coherent_exit {code : ExitCode} : (k.exit p code).Coherent := by
  rcases k.exit_cases p code with ⟨why, h⟩ | h | ⟨i, told, -, -, -, h⟩ <;> rw [h]
  · exact coherent_refuse
  · simp [Coherent, fail]
  · exact coherent_finish

theorem coherent_kill : (k.kill p).Coherent := by
  rw [kill]
  split
  · exact coherent_refuse
  · split
    · exact coherent_refuse
    · exact coherent_ok

theorem coherent_collect_found (h : x.Sound) {target : Target} {code : ExitCode}
    (hf : x.table.find parent target = .found i p code) :
    (x.kernel.collect parent i p code).Coherent := by
  obtain ⟨hm, -, hz, -⟩ := Slot.remains?_eq_some.mp (Table.find_eq_found hf)
  rw [collect_eq h (Slot.holds_of_matching? hm) hz]
  exact coherent_ok

theorem coherent_tryWait (h : x.Sound) {target : Target} :
    (x.kernel.tryWait parent target).Coherent := by
  rcases x.kernel.tryWait_cases parent target with ⟨why, hr⟩ | hr | ⟨i, p, code, hf, hr⟩ <;> rw [hr]
  · exact coherent_refuse
  · exact coherent_ok
  · exact (coherent_collect_found h hf).map _

theorem coherent_reap (h : x.Sound) {child : Pid} : (x.kernel.reap parent child).Coherent := by
  rcases x.kernel.reap_cases parent child with
    ⟨why, hr⟩ | ⟨i, code, hs, -, hz, -, -, hr⟩ <;> rw [hr]
  · exact coherent_refuse
  · rw [collect_eq h (Table.holds_of_slotOf? hs) hz]
    exact coherent_ok

theorem coherent_serve (h : x.Sound) (r : Request) : (x.kernel.serve r).Coherent := by
  cases r with
  | allocate parent => exact (coherent_reserve.map _).map _
  | activate p space => exact coherent_activate.map _
  | activateRegions p regions => exact coherent_activateRegions.map _
  | create parent regions => exact coherent_create.map _
  | spawn parent image => exact (coherent_adoptBuild (Elf.load_coherent image)).map _
  | fork parent => exact coherent_fork.map _
  | exec p image => exact coherent_exec.map _
  | transition p next => exact coherent_transition.map _
  | exit p code => exact coherent_exit.map _
  | kill p => exact coherent_kill.map _
  | tryWait parent target => exact (coherent_tryWait h).map _
  | reap parent child => exact (coherent_reap h).map _
  | _ => exact coherent_ok

theorem coherent_look (h : x.Sound) (c : Caller) : (x.kernel.look c).Coherent := by
  rcases x.kernel.look_cases c with ⟨why, hr⟩ | ⟨i, p, code, hf, hr⟩ | ⟨-, -, hr⟩ <;> rw [hr]
  · exact coherent_refuse
  · exact (coherent_collect_found h hf).map _
  · exact coherent_ok

theorem coherent_wait (h : x.Sound) (parent : Pid) (target : Target) :
    (x.kernel.wait parent target).Coherent := by
  rw [wait]
  split
  · exact coherent_refuse
  · exact coherent_look h _

theorem coherent_resume {w : Waiter} {blocked : Multiset Waiter}
    (h : Scene.Sound ⟨k, w ::ₘ blocked, []⟩) : (k.resume w.caller).Coherent := by
  obtain ⟨left, hleft, ⟨-, hr⟩ | ⟨ha, status, hs, hr⟩⟩ := resume_cases h <;> rw [hr]
  · exact coherent_refuse
  · exact coherent_look (h.move (move_leave hleft ha hs)) w.caller

end Kernel

namespace Session

/-- The fault that an act returns with, if it returns with one. -/
def fault? (s : Session) : Act → Option Fault
  | .serve r =>
    match (s.serve r).2.1 with
    | .ok _ => none
    | .error fault => some fault
  | .wait parent target =>
    match (s.wait parent target).2.1 with
    | .returned (.error fault) => some fault
    | _ => none
  | .rouse i =>
    match (s.rouse i).2.returned with
    | [(_, .error fault)] => some fault
    | _ => none

theorem fault_coherent {s : Session} (h : s.scene.Sound) (a : Act) :
    s.fault? a ≠ some .corrupt := by
  cases a with
  | serve r =>
    have hc : (s.kernel.serve r).Coherent := Kernel.coherent_serve h r
    rw [Outcome.Coherent] at hc
    simp only [fault?, serve]
    cases hr : (s.kernel.serve r).result <;> simp_all
  | wait parent target =>
    have hc : (s.kernel.wait parent target).Coherent := Kernel.coherent_wait h parent target
    rw [Outcome.Coherent] at hc
    simp only [fault?, wait]
    cases hr : (s.kernel.wait parent target).result with
    | error fault => simp_all
    | ok waiting => cases waiting <;> simp
  | rouse i =>
    simp only [fault?, rouse]
    cases hi : s.sleepers[i]? with
    | none => simp [Activity.none]
    | some sleeper =>
      have hc : (s.kernel.resume sleeper.waiter.caller).Coherent := by
        obtain ⟨hlt, rfl⟩ := List.getElem?_eq_some_iff.mp hi
        rw [scene_eq_cons hlt] at h
        exact Kernel.coherent_resume h
      rw [Outcome.Coherent] at hc
      dsimp only
      cases hr : (s.kernel.resume sleeper.waiter.caller).result with
      | error fault => simp_all
      | ok waiting => cases waiting <;> simp

end Session

end Lifecycle
