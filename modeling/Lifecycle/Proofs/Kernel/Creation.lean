import Lifecycle.Proofs.Kernel.Kin
import Lifecycle.Proofs.Memory.Edits
/-!
# Creating at once and in stages

To create a process at once is to build its address space, to take a slot for it and to bind the one
to the other. The slot that has just been taken is the one under which the new identity is found,
since nobody else has it, and a process that is being set up may always become ready; so the stages
after the first two cannot fail, and nothing has to be undone. What speaks against the parent is told
before it is known whether there is room.
-/

namespace Lifecycle

/-- An address space that there is nothing left to do for. -/
def Build.finished (space : AddressSpace) : Build Unit := ⟨space, .ok ()⟩

namespace Slot

/-- What is bound to the child of the process in a slot, if that process lives. -/
def bears (space : AddressSpace) (s : Slot) : Option AddressSpace :=
  if s.status.isAlive then some space else none

/-- What is bound to the child of the process in a slot that forks: a copy of what the process has,
if it is running. -/
def clones (s : Slot) : Option AddressSpace :=
  if s.status = .running then s.space.map .copy else none

end Slot

namespace Table

variable {t : Table} {i j : Nat} {parent : Pid} {space : AddressSpace}

/-! ## Room -/

/-- The lowest slot without a process. -/
structure FirstFree (t : Table) (i : Nat) : Prop where
  lt : i < t.capacity
  unused : (t.slotAt i).status = .unused
  first : ∀ j < i, (t.slotAt j).status ≠ .unused

theorem firstFree_iff : t.freeSlot? = some i ↔ t.FirstFree i := by
  rw [freeSlot?_eq_some]
  have hfree : ∀ s : Slot, s.inUse = false ↔ s.status = .unused := by simp [Slot.inUse]
  constructor
  · intro hx
    obtain ⟨hi, hunused, hfirst⟩ := hx
    exact ⟨hi, (hfree _).mp hunused, fun j hj => Slot.inUse_iff.mp (hfirst j hj)⟩
  · intro hx
    exact ⟨hx.lt, (hfree _).mpr hx.unused, fun j hj => Slot.inUse_iff.mpr (hx.first j hj)⟩

/-- There is a free slot exactly while there are fewer processes than slots. -/
theorem liveCount_lt_iff : t.liveCount < t.capacity ↔ ∃ i, t.freeSlot? = some i := by
  have hle : t.liveCount ≤ t.capacity := List.countP_le_length
  constructor
  · intro hlt
    cases hfree : t.freeSlot? with
    | none => exact absurd (liveCount_of_full hfree) hlt.ne
    | some i => exact ⟨i, rfl⟩
  · intro hfree
    obtain ⟨i, hfree⟩ := hfree
    obtain ⟨hi, hunused, -⟩ := freeSlot?_eq_some.mp hfree
    refine lt_of_le_of_ne hle fun hfull => ?_
    have hused := List.countP_eq_length.mp hfull _ (slotAt_mem hi)
    rw [hunused] at hused
    cases hused

/-! ## Parents -/

/-- What a parent has for a child, else what speaks against the parent. -/
def offer (t : Table) (grants : Slot → Option AddressSpace) (parent : Pid) :
    Except Refusal AddressSpace :=
  match t.slotOf? parent with
  | none => .error (.noProcess parent)
  | some i =>
    match grants (t.slotAt i) with
    | none => .error (t.badStatus i parent)
    | some space => .ok space

theorem offer_bears : t.offer (Slot.bears space) parent =
    (t.aliveSlot parent).map fun _ => space := by
  rw [offer, aliveSlot]
  cases t.slotOf? parent with
  | none => rfl
  | some i =>
    by_cases ha : (t.slotAt i).status.isAlive = true
    · simp [Slot.bears, ha, Except.map]
    · simp [Slot.bears, ha, Except.map]

theorem offer_eq_ok {grants : Slot → Option AddressSpace} :
    t.offer grants parent = .ok space ↔
      ∃ i, t.slotOf? parent = some i ∧ grants (t.slotAt i) = some space := by
  rw [offer]
  cases t.slotOf? parent with
  | none => simp
  | some i => cases hg : grants (t.slotAt i) <;> simp [hg]

/-- Whoever holds the identity of the parent is who is asked. -/
theorem Sound.exists_offer (h : t.Sound) {grants : Slot → Option AddressSpace} :
    (∃ space, t.offer grants parent = .ok space) ↔
      ∃ i, (t.slotAt i).holds parent = true ∧ (grants (t.slotAt i)).isSome = true := by
  simp only [offer_eq_ok, Option.isSome_iff_exists]
  constructor
  · intro hx
    obtain ⟨space, i, hi, hgrants⟩ := hx
    exact ⟨i, holds_of_slotOf? hi, space, hgrants⟩
  · intro hx
    obtain ⟨i, hi, space, hgrants⟩ := hx
    exact ⟨space, i, h.slotOf?_of_holds hi, hgrants⟩

end Table

namespace Kernel

open Outcome Table

variable {α : Type} {x : Scene} {k : Kernel} {parent : Pid} {space : AddressSpace}
  {grants : Slot → Option AddressSpace}

/-- Creation in stages: once the address space has been built, a slot is taken and the address space
is bound to the new process, in calls of their own. The first stage to fail is the answer. -/
def inStages (k : Kernel) (parent : Pid) (built : Build α) : Outcome Pid :=
  match built.result with
  | .error fault => k.fail fault
  | .ok _ => (k.allocate parent).andThen fun p k => (k.activate p built.space).map fun _ => p

/-- How a creation ends. What speaks against the parent comes first, then a table without room;
otherwise the new process is in the lowest free slot, and all other slots are as they were. -/
structure Creates (k : Kernel) (parent : Pid) (grants : Slot → Option AddressSpace)
    (o : Outcome Pid) : Prop where
  refused : ∀ why, k.table.offer grants parent = .error why → o.Agrees (k.refuse why)
  full : ∀ space, k.table.offer grants parent = .ok space → k.table.liveCount = k.table.capacity →
    o.Agrees (k.refuse .tableFull)
  created : ∀ space, k.table.offer grants parent = .ok space →
    k.table.liveCount < k.table.capacity → ∃ i, k.table.FirstFree i ∧
      o.Agrees (answer { k with table := k.table.seat i parent space } k.table.pool.issue.1)

/-! ## Installing -/

/-- The new process is found in the slot that has been taken for it. -/
theorem slotOf?_fill (h : x.Sound) {i : Nat} (hfree : x.table.freeSlot? = some i) :
    (x.table.fill i parent).slotOf? x.table.pool.issue.1 = some i := by
  obtain ⟨hi, hunused, -⟩ := freeSlot?_eq_some.mp hfree
  have hfresh := h.accounted.issue_fresh h.table hi hunused
  refine slotOf?_eq_some.mpr ⟨?_, fun j hj => ?_⟩
  · rw [slotAt_take hi, if_pos rfl]
    exact Slot.holds_taken.mpr rfl
  · rw [slotAt_take hi, if_neg hj.ne']
    exact hfresh.unheld j

/-- To install a process is to allocate and to activate it. -/
theorem install_eq_stages (h : x.Sound) (parent : Pid) (space : AddressSpace) :
    x.kernel.install parent space =
      (x.kernel.allocate parent).andThen fun p k => (k.activate p space).map fun _ => p := by
  rw [install, allocate]
  rcases x.kernel.reserve_cases parent with ⟨why, hr⟩ | ⟨i, j, hfree, -, hr⟩ <;> rw [hr]
  · rfl
  · have hslot : (x.kernel.table.fill i parent).slotOf? x.kernel.table.pool.issue.1 = some i :=
      slotOf?_fill h hfree
    simp only [Outcome.andThen, Outcome.map, Except.map, activate, hslot]

/-- A call creates if it refuses what speaks against the parent, and otherwise installs what the
parent has for a child. -/
theorem creates_of_install {o : Outcome Pid}
    (hrefused : ∀ why, k.table.offer grants parent = .error why → o.Agrees (k.refuse why))
    (hinstall : ∀ space, k.table.offer grants parent = .ok space →
      (∃ j, k.table.aliveSlot parent = .ok j) ∧ o.Agrees (k.install parent space)) :
    k.Creates parent grants o where
  refused := hrefused
  full space hoffer hfull := by
    obtain ⟨⟨j, ha⟩, hagrees⟩ := hinstall space hoffer
    have hnone : k.table.freeSlot? = none := by
      by_contra hsome
      exact (liveCount_lt_iff.mpr (Option.ne_none_iff_exists'.mp hsome)).ne hfull
    exact hagrees.trans (.of_eq (install_full ha hnone))
  created space hoffer hroom := by
    obtain ⟨⟨j, ha⟩, hagrees⟩ := hinstall space hoffer
    obtain ⟨i, hfree⟩ := liveCount_lt_iff.mp hroom
    exact ⟨i, firstFree_iff.mp hfree, hagrees.trans (install_seated ha hfree)⟩

/-- The three ways in which a creation ends exclude each other and there is no fourth. -/
theorem Creates.result_cases {o : Outcome Pid} (h : k.Creates parent grants o) :
    (∃ why, k.table.offer grants parent = .error why ∧ o.result = .error (.refused why)) ∨
    (∃ space, k.table.offer grants parent = .ok space ∧ k.table.liveCount = k.table.capacity ∧
      o.result = .error (.refused .tableFull)) ∨
    ∃ space, k.table.offer grants parent = .ok space ∧ k.table.liveCount < k.table.capacity ∧
      o.result = .ok k.table.pool.issue.1 := by
  have hle : k.table.liveCount ≤ k.table.capacity := List.countP_le_length
  cases hoffer : k.table.offer grants parent with
  | error why => exact .inl ⟨why, rfl, (h.refused why hoffer).1⟩
  | ok space =>
    rcases hle.eq_or_lt with hfull | hroom
    · exact .inr (.inl ⟨space, rfl, hfull, (h.full space hoffer hfull).1⟩)
    · obtain ⟨i, -, hagrees⟩ := h.created space hoffer hroom
      exact .inr (.inr ⟨space, rfl, hroom, hagrees.1⟩)

/-- A creation succeeds if nothing speaks against the parent and there is room. -/
theorem Creates.ok_iff {o : Outcome Pid} (h : k.Creates parent grants o) (hs : k.table.Sound) :
    (∃ p, o.result = .ok p) ↔
      (∃ i, (k.table.slotAt i).holds parent = true ∧
        (grants (k.table.slotAt i)).isSome = true) ∧ k.table.liveCount < k.table.capacity := by
  rw [← hs.exists_offer]
  rcases h.result_cases with ⟨why, hoffer, hresult⟩ | ⟨space, hoffer, hfull, hresult⟩ |
    ⟨space, hoffer, hroom, hresult⟩
  · simp [hoffer, hresult]
  · simp [hoffer, hresult, hfull]
  · simp [hoffer, hresult, hroom]

/-! ## Creating, spawning, forking -/

theorem adoptBuild_eq_stages (h : x.Sound) (parent : Pid) (built : Build α) :
    (x.kernel.adoptBuild parent built).Agrees (x.kernel.inStages parent built) := by
  cases hbuilt : built.result with
  | error fault =>
    rw [adoptBuild, inStages, hbuilt]
    exact ⟨rfl, rfl⟩
  | ok a =>
    rw [inStages, hbuilt]
    exact (adoptBuild_eq_install hbuilt).trans (.of_eq (install_eq_stages h parent built.space))

theorem install_creates (k : Kernel) (parent : Pid) (space : AddressSpace) :
    k.Creates parent (Slot.bears space) (k.install parent space) := by
  have hbears : k.table.offer (Slot.bears space) parent = _ := offer_bears
  cases ha : k.table.aliveSlot parent with
  | error why =>
    rw [ha] at hbears
    refine creates_of_install (fun why' hoffer => ?_) fun space' hoffer => ?_
    · cases hbears.symm.trans hoffer
      exact .of_eq (install_refused ha)
    · cases hbears.symm.trans hoffer
  | ok j =>
    rw [ha] at hbears
    refine creates_of_install (fun why hoffer => ?_) fun space' hoffer => ?_
    · cases hbears.symm.trans hoffer
    · cases hbears.symm.trans hoffer
      exact ⟨⟨j, ha⟩, rfl, rfl⟩

theorem Creates.of_agrees {o o' : Outcome Pid} (h : k.Creates parent grants o')
    (ho : o.Agrees o') : k.Creates parent grants o where
  refused why hoffer := ho.trans (h.refused why hoffer)
  full space hoffer hfull := ho.trans (h.full space hoffer hfull)
  created space hoffer hroom := by
    obtain ⟨i, hi, hagrees⟩ := h.created space hoffer hroom
    exact ⟨i, hi, ho.trans hagrees⟩

/-- What speaks against a parent that forks is that it is not there, that it is not running or that
it has no address space. -/
theorem fork_refused {why : Refusal} (hoffer : k.table.offer Slot.clones parent = .error why) :
    k.fork parent = k.refuse why := by
  rw [offer] at hoffer
  unfold fork
  rw [runningSlot]
  cases hslot : k.table.slotOf? parent with
  | none =>
    rw [hslot] at hoffer
    cases hoffer
    rfl
  | some i =>
    rw [hslot] at hoffer
    by_cases hrunning : (k.table.slotAt i).status = .running
    · cases hspace : (k.table.slotAt i).space with
      | none =>
        simp only [Slot.clones, hrunning, hspace, if_true, Option.map_none] at hoffer
        cases hoffer
        simp only [hrunning, hspace, if_true]
      | some space => simp [Slot.clones, hrunning, hspace] at hoffer
    · simp only [Slot.clones, hrunning, if_false] at hoffer
      cases hoffer
      simp only [hrunning, if_false]

theorem fork_creates (k : Kernel) (parent : Pid) :
    k.Creates parent Slot.clones (k.fork parent) := by
  refine creates_of_install (fun why hoffer => .of_eq (fork_refused hoffer)) fun space hoffer => ?_
  obtain ⟨i, hslot, hclones⟩ := offer_eq_ok.mp hoffer
  rw [Slot.clones] at hclones
  split at hclones
  · rename_i hrunning
    obtain ⟨held, hspace, rfl⟩ := Option.map_eq_some_iff.mp hclones
    refine ⟨⟨i, ?_⟩, fork_eq_install hslot hrunning hspace⟩
    rw [aliveSlot, hslot]
    exact if_pos (by rw [hrunning]; rfl)
  · cases hclones

/-- A child of a living parent is created if there is room. -/
theorem adoptBuild_ok_iff (hs : k.table.Sound) {built : Build α} {a : α}
    (hbuilt : built.result = .ok a) :
    (∃ p, (k.adoptBuild parent built).result = .ok p) ↔
      k.table.Living parent ∧ k.table.liveCount < k.table.capacity := by
  rw [((k.install_creates parent built.space).of_agrees (adoptBuild_eq_install hbuilt)).ok_iff hs]
  have hbears : ∀ s : Slot, (Slot.bears built.space s).isSome = true ↔ s.status.isAlive = true := by
    intro s
    cases ha : s.status.isAlive <;> simp [Slot.bears, ha]
  simp only [hbears]
  rfl

/-- A child of a running process that has an address space is forked if there is room. -/
theorem fork_ok_iff (hs : k.table.Sound) :
    (∃ p, (k.fork parent).result = .ok p) ↔
      (∃ i, (k.table.slotAt i).holds parent = true ∧ (k.table.slotAt i).status = .running ∧
        (k.table.slotAt i).space.isSome = true) ∧ k.table.liveCount < k.table.capacity := by
  rw [(k.fork_creates parent).ok_iff hs]
  have hclones : ∀ s : Slot, s.clones.isSome = true ↔
      s.status = .running ∧ s.space.isSome = true := by
    intro s
    by_cases hr : s.status = .running <;> simp [Slot.clones, hr]
  simp only [hclones]

end Kernel

namespace Session

variable {config : Config} {s : Session}

/-- Creating a process from regions, from an image or by a fork is answered as the stages are one by
one, and leaves the same kernel. If its address space is there, the first to be told is what speaks
against the parent, then that there is no room; else the lowest free slot holds the new process, which
is ready, not marked and kept by no callers, and nothing else has changed but the pool. -/
theorem creation_of_reachable (h : Reachable config s) (parent : Pid) :
    (∀ regions, (s.kernel.create parent regions).Agrees
      (s.kernel.inStages parent (AddressSpace.ofRegions regions))) ∧
    (∀ image, (s.kernel.spawn parent image).Agrees
      (s.kernel.inStages parent (Elf.load image))) ∧
    (∀ i space, (s.kernel.table.slotAt i).holds parent = true →
      (s.kernel.table.slotAt i).status = .running →
      (s.kernel.table.slotAt i).space = some space → space.copy.areas = space.areas ∧
        (s.kernel.fork parent).Agrees (s.kernel.inStages parent (.finished space.copy))) ∧
    (∀ regions, (AddressSpace.ofRegions regions).result = .ok () →
      s.kernel.Creates parent (Slot.bears (AddressSpace.ofRegions regions).space)
        (s.kernel.create parent regions) ∧
      ((∃ p, (s.kernel.create parent regions).result = .ok p) ↔
        s.kernel.table.Living parent ∧ s.kernel.table.liveCount < s.kernel.table.capacity)) ∧
    (∀ image start, (Elf.load image).result = .ok start →
      s.kernel.Creates parent (Slot.bears (Elf.load image).space) (s.kernel.spawn parent image) ∧
      ((∃ p, (s.kernel.spawn parent image).result = .ok p) ↔
        s.kernel.table.Living parent ∧ s.kernel.table.liveCount < s.kernel.table.capacity)) ∧
    s.kernel.Creates parent Slot.clones (s.kernel.fork parent) ∧
    ((∃ p, (s.kernel.fork parent).result = .ok p) ↔
      (∃ i, (s.kernel.table.slotAt i).holds parent = true ∧
        (s.kernel.table.slotAt i).status = .running ∧
        (s.kernel.table.slotAt i).space.isSome = true) ∧
      s.kernel.table.liveCount < s.kernel.table.capacity) := by
  have hs : s.scene.Sound := h.sound
  refine ⟨fun regions => ?_, fun image => Kernel.adoptBuild_eq_stages hs parent _,
    fun i space hi hrunning hspace => ⟨by rw [AddressSpace.copy_eq], ?_⟩, fun regions hbuilt => ?_,
    fun image start hbuilt => ⟨?_, Kernel.adoptBuild_ok_iff hs.table hbuilt⟩,
    s.kernel.fork_creates parent, Kernel.fork_ok_iff hs.table⟩
  · exact (s.kernel.create_eq_adoptBuild parent regions).trans
      (Kernel.adoptBuild_eq_stages hs parent _)
  · have hfork := Kernel.fork_eq_install (hs.table.slotOf?_of_holds hi) hrunning hspace
    exact hfork.trans (.of_eq (Kernel.install_eq_stages hs parent space.copy))
  · have hcreate := s.kernel.create_eq_adoptBuild parent regions
    refine ⟨(s.kernel.install_creates parent _).of_agrees
      (hcreate.trans (Kernel.adoptBuild_eq_install hbuilt)), ?_⟩
    rw [hcreate.1]
    exact Kernel.adoptBuild_ok_iff hs.table hbuilt
  · exact (s.kernel.install_creates parent _).of_agrees (Kernel.adoptBuild_eq_install hbuilt)

/-- Of two children the first is marked and ends; it has been collected. -/
def vacating : List Act :=
  [.serve (.create ⟨0⟩ [⟨⟨0x1000⟩, ⟨0x3000⟩, .ofBits 10⟩]), .serve (.create ⟨0⟩ []),
    .serve (.kill ⟨1⟩), .serve (.transition ⟨1⟩ .running), .serve (.exit ⟨1⟩ 7),
    .serve (.reap ⟨0⟩ ⟨1⟩)]

/-- One page for a new process. -/
def quarters : List Region := [⟨⟨0x5000⟩, ⟨0x6000⟩, .ofBits 6⟩]

/-- The table has a gap, which the next process gets with the identity of the last one there, and
then it is full. -/
theorem creation_of_vacating :
    ∃ s, run ⟨3, ⟨0⟩⟩ vacating = .ok s ∧
      s.kernel.Creates ⟨0⟩ (Slot.bears (AddressSpace.ofRegions quarters).space)
        (s.kernel.create ⟨0⟩ quarters) ∧
      (s.kernel.create ⟨0⟩ quarters).result = .ok ⟨1⟩ ∧
      (s.kernel.create ⟨0⟩ quarters).kernel.table.slotAt 1 =
        .ready ⟨1⟩ ⟨0⟩ (AddressSpace.ofRegions quarters).space ∧
      (s.kernel.spawn ⟨0⟩ Elf.onePage).Agrees (s.kernel.inStages ⟨0⟩ (Elf.load Elf.onePage)) ∧
      (∃ p, (s.kernel.spawn ⟨0⟩ Elf.onePage).result = .ok p) ∧
      (s.kernel.fork ⟨0⟩).Agrees (s.kernel.inStages ⟨0⟩ (.finished AddressSpace.empty.copy)) ∧
      (s.kernel.fork ⟨2⟩).Agrees (s.kernel.refuse (.badStatus ⟨2⟩ .runnable)) := by
  have hrun : run ⟨3, ⟨0⟩⟩ vacating = .ok _ := rfl
  obtain ⟨hstages, hspawn, hfork, hcreate, hloaded, -, -⟩ := creation_of_reachable (.run hrun) ⟨0⟩
  obtain ⟨-, -, -, -, -, hother, -⟩ := creation_of_reachable (.run hrun) ⟨2⟩
  obtain ⟨start, hstart, -⟩ := Elf.load_of_loadable Elf.onePage_loadable
  have hroom := (hloaded Elf.onePage start hstart).2.mpr ⟨⟨0, by decide, by decide⟩, by decide⟩
  exact ⟨_, hrun, (hcreate quarters rfl).1, rfl, by decide, hspawn Elf.onePage, hroom,
    (hfork 0 .empty (by decide) (by decide) (by decide)).2, hother.refused _ rfl⟩

end Session

end Lifecycle
