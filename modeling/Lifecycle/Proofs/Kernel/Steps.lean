import Lifecycle.Proofs.Kernel.Sound
/-!
# Steps as moves

Every operation on a kernel is made of moves. A refused operation makes none; one that succeeds does
exactly the deed that its result tells of. The steps that a table in disorder would stop, such as
waking an adopter who is not there, are shown to go through.
-/

namespace Lifecycle

namespace Outcome

variable {α β : Type} {x : Scene}

/-- Moves lead from a scene to the kernel after an outcome, and they do the deeds that the result
stands for. -/
def Led (o : Outcome α) (x : Scene) (deeds : α → List Deed) : Prop :=
  Scene.Moves x (match o.result with
    | .ok a => deeds a
    | .error _ => []) ⟨o.kernel, x.blocked, x.owed⟩

theorem led_fail (fault : Fault) (deeds : α → List Deed) : (x.kernel.fail fault).Led x deeds :=
  .refl

theorem led_refuse (why : Refusal) (deeds : α → List Deed) : (x.kernel.refuse why).Led x deeds :=
  .refl

theorem Led.map {o : Outcome α} {deeds : β → List Deed} {f : α → β}
    (h : o.Led x fun a => deeds (f a)) : (o.map f).Led x deeds := by
  rw [Led] at h ⊢
  rw [Outcome.map]
  cases hr : o.result <;> simpa [hr, Except.map] using h

/-- Two calls are answered alike and leave the same kernel. What they tell on the way may differ. -/
def Agrees (o o' : Outcome α) : Prop := o.result = o'.result ∧ o.kernel = o'.kernel

theorem Agrees.trans {o o' o'' : Outcome α} (h : o.Agrees o') (h' : o'.Agrees o'') : o.Agrees o'' :=
  ⟨h.1.trans h'.1, h.2.trans h'.2⟩

theorem Agrees.of_eq {o o' : Outcome α} (h : o = o') : o.Agrees o' :=
  ⟨congrArg result h, congrArg kernel h⟩

/-- A second step that only tells of the first changes nothing. -/
theorem andThen_tell (o : Outcome α) (told : α → List Event) :
    (o.andThen fun a k => ⟨.ok a, k, told a⟩).Agrees o := by
  rw [andThen]
  cases hr : o.result with
  | error fault => exact ⟨hr.symm, rfl⟩
  | ok a => exact ⟨hr.symm, rfl⟩

/-- What is told besides does not matter. -/
theorem Led.of_agrees {o o' : Outcome α} {deeds : α → List Deed} (h : o.Led x deeds)
    (ho : o'.Agrees o) : o'.Led x deeds := by
  rw [Led] at h ⊢
  rwa [ho.1, ho.2]

end Outcome

namespace Kernel

open Outcome

variable {x : Scene}

/-! ## Going on -/

/-- A process that moves on to a living status is one that is set up, or it lives already. -/
theorem used_or_alive {now next : Status} (h : now.canBecome next = true)
    (hn : next.isAlive = true) : now = .used ∧ next = .runnable ∨ now.isAlive = true := by
  cases now <;> cases next <;> simp_all [Status.canBecome, Status.isAlive]

theorem continues_status {s : Slot} {next : Status} (h : s.status.canBecome next = true)
    (hn : next.isAlive = true) : s.Continues { s with status := next } := by
  have hs : s.status = .used ∨ s.status.isAlive = true := (used_or_alive h hn).imp And.left id
  refine ⟨rfl, rfl, rfl, fun hu => ?_, .inr ⟨hs, hn⟩⟩
  rcases hs with hs | hs
  · simp [Slot.inUse, hs] at hu
  · simp [Slot.inUse_of_alive hs] at hu

theorem advance_eq_ok {t t' : Table} {i : Nat} {p : Pid} {next : Status}
    (h : t.advance i p next = .ok t') :
    (t.slotAt i).status.canBecome next = true ∧
      t' = t.modifySlot i fun s => { s with status := next } := by
  rw [Table.advance] at h
  split at h
  · exact ⟨‹_›, (Except.ok.inj h).symm⟩
  · simp at h

/-- Moving a process to a living status is a move. -/
theorem move_advance {i : Nat} {p : Pid} {next : Status} {t' : Table}
    (h : x.table.advance i p next = .ok t') (hn : next.isAlive = true) :
    Scene.Move x [] ⟨{ x.kernel with table := t' }, x.blocked, x.owed⟩ := by
  obtain ⟨hc, rfl⟩ := advance_eq_ok h
  have hgoes := continues_status hc hn
  refine .ease ?_ hgoes rfl rfl
  rw [← hgoes.inUse]
  exact Slot.inUse_of_alive hn

theorem led_bind (i : Nat) (p : Pid) (space : AddressSpace) :
    (x.kernel.bind i p space).Led x fun _ => [] := by
  rw [bind]
  cases h : x.kernel.table.advance i p .runnable with
  | error why => exact led_refuse why _
  | ok t' =>
    have hfirst := move_advance h rfl
    obtain ⟨hc, rfl⟩ := advance_eq_ok h
    have hi : i < x.table.capacity := by
      refine Table.lt_capacity_of_inUse ?_
      rw [← (continues_status hc rfl).inUse]
      rfl
    have halive : ((x.table.modifySlot i fun s =>
        { s with status := .runnable }).slotAt i).status.isAlive = true := by
      rw [Table.slotAt_modifySlot hi, if_pos rfl]
      rfl
    have hinUse := Slot.inUse_of_alive halive
    exact .step hfirst
      (.step (.ease hinUse (.of_alive halive halive rfl rfl rfl) rfl rfl) .refl)

theorem led_activate (p : Pid) (space : AddressSpace) :
    (x.kernel.activate p space).Led x fun _ => [] := by
  rw [activate]
  cases x.kernel.table.slotOf? p with
  | none => exact led_refuse _ _
  | some i => exact led_bind i p space

theorem led_activateRegions (p : Pid) (regions : List Region) :
    (x.kernel.activateRegions p regions).Led x fun _ => [] := by
  rw [activateRegions]
  dsimp only
  cases (AddressSpace.ofRegions regions).result with
  | error fault => exact .refl
  | ok _ => exact (led_activate p _).of_agrees ⟨rfl, rfl⟩

theorem led_exec (p : Pid) (image : Bytes) : (x.kernel.exec p image).Led x fun _ => [] := by
  rw [exec]
  dsimp only
  cases (Elf.load image).result with
  | error fault => exact .refl
  | ok start =>
    dsimp only
    cases h : x.kernel.table.runningSlot p with
    | error why => exact .refl
    | ok i =>
      have halive : (x.table.slotAt i).status.isAlive = true := by
        rw [(Table.runningSlot_eq_ok h).2]
        rfl
      have hinUse := Slot.inUse_of_alive halive
      exact .step (.ease hinUse (.of_alive halive halive rfl rfl rfl) rfl rfl) .refl

/-- A scheduler is refused, or it moves a process on to a living status. -/
theorem transition_cases (k : Kernel) (p : Pid) (next : Status) :
    (∃ why, k.transition p next = k.refuse why) ∨
      ∃ i t', k.table.slotOf? p = some i ∧ next.isAlive = true ∧
        k.table.advance i p next = .ok t' ∧
        k.transition p next =
          ⟨.ok (), { k with table := t' }, [.moved p (k.table.slotAt i).status next]⟩ := by
  unfold transition
  cases hs : k.table.slotOf? p with
  | none => exact .inl ⟨.noProcess p, rfl⟩
  | some i =>
    cases next with
    | unused => exact .inl ⟨k.table.badStatus i p, rfl⟩
    | used => exact .inl ⟨k.table.badStatus i p, rfl⟩
    | zombie => exact .inl ⟨k.table.badStatus i p, rfl⟩
    | _ =>
      dsimp only
      split
      · exact .inl ⟨_, rfl⟩
      · rename_i t' ha
        exact .inr ⟨i, t', rfl, rfl, ha, rfl⟩

theorem led_transition (p : Pid) (next : Status) :
    (x.kernel.transition p next).Led x fun _ => [] := by
  rcases x.kernel.transition_cases p next with ⟨why, h⟩ | ⟨i, t', -, hn, ha, h⟩ <;> rw [h]
  · exact led_refuse why _
  · exact (move_advance ha hn).moves

theorem led_kill (h : x.Sound) (p : Pid) : (x.kernel.kill p).Led x fun _ => [] := by
  rw [kill]
  cases ha : x.kernel.table.aliveSlot p with
  | error why => exact led_refuse why _
  | ok i =>
    dsimp only
    split
    · exact led_refuse _ _
    · rename_i hne
      obtain ⟨hs, halive⟩ := Table.aliveSlot_eq_ok ha
      have hi0 : i ≠ 0 := fun h0 => hne ((h.table.eq_zero_iff (Table.holds_of_slotOf? hs)).mp h0)
      exact .step (.mark halive hi0) (.step .wake .refl)

/-! ## Creating -/

/-- A reservation is refused, or it takes the first free slot for the child of a living process. -/
theorem reserve_cases (k : Kernel) (parent : Pid) :
    (∃ why, k.reserve parent = k.refuse why) ∨
      ∃ i j, k.table.freeSlot? = some i ∧ k.table.aliveSlot parent = .ok j ∧
        k.reserve parent =
          ⟨.ok (i, k.table.pool.issue.1), { k with table := k.table.fill i parent },
            [.allocated k.table.pool.issue.1 i parent]⟩ := by
  rw [reserve]
  cases ha : k.table.aliveSlot parent with
  | error why => exact .inl ⟨why, rfl⟩
  | ok j =>
    cases hf : k.table.freeSlot? with
    | none => exact .inl ⟨.tableFull, rfl⟩
    | some i => exact .inr ⟨i, j, rfl, rfl, rfl⟩

theorem move_reserve {parent : Pid} {i j : Nat} (hf : x.table.freeSlot? = some i)
    (ha : x.table.aliveSlot parent = .ok j) :
    Scene.Move x [.born x.table.pool.issue.1]
      ⟨{ x.kernel with table := x.table.fill i parent }, x.blocked, x.owed⟩ := by
  obtain ⟨hs, halive⟩ := Table.aliveSlot_eq_ok ha
  exact .take hf ⟨j, Table.holds_of_slotOf? hs, halive⟩

theorem led_allocate (parent : Pid) : (x.kernel.allocate parent).Led x fun p => [.born p] := by
  refine Led.map (f := Prod.snd) ?_
  rcases x.kernel.reserve_cases parent with ⟨why, h⟩ | ⟨i, j, hf, ha, h⟩ <;> rw [h]
  · exact led_refuse why _
  · exact (move_reserve hf ha).moves

/-- A slot that has just been taken can be given an address space. -/
theorem bind_reserved {k : Kernel} {i : Nat} (hf : k.table.freeSlot? = some i) (parent : Pid)
    (space : AddressSpace) :
    (bind { k with table := k.table.fill i parent } i k.table.pool.issue.1 space).result =
      .ok () := by
  have hslot : (k.table.fill i parent).slotAt i = .taken k.table.pool.issue.1 parent :=
    (Table.slotAt_take (Table.freeSlot?_eq_some.mp hf).1 i).trans (if_pos rfl)
  unfold bind Table.advance
  rw [hslot]
  rfl

theorem led_install (parent : Pid) (space : AddressSpace) :
    (x.kernel.install parent space).Led x fun p => [.born p] := by
  rw [install]
  rcases x.kernel.reserve_cases parent with ⟨why, h⟩ | ⟨i, j, hf, ha, h⟩ <;> rw [h]
  · exact led_refuse why _
  · have hmove := move_reserve hf ha
    have hok := bind_reserved hf parent space
    have hbind := led_bind (x := ⟨{ x.kernel with table := x.table.fill i parent }, x.blocked,
      x.owed⟩) i x.table.pool.issue.1 space
    rw [Led] at hbind ⊢
    rw [hok] at hbind
    have hall := hmove.moves.trans hbind
    unfold andThen Outcome.map
    dsimp only
    rw [hok]
    exact hall

theorem led_adoptBuild {α : Type} (parent : Pid) (built : Build α) :
    (x.kernel.adoptBuild parent built).Led x fun p => [.born p] := by
  rw [adoptBuild]
  cases built.result with
  | error fault => exact .refl
  | ok _ =>
    have htell := andThen_tell (x.kernel.install parent built.space) fun p =>
      [.created p parent built.space.pageCount]
    exact (led_install parent built.space).of_agrees htell

theorem led_create (parent : Pid) (regions : List Region) :
    (x.kernel.create parent regions).Led x fun p => [.born p] := by
  unfold create
  dsimp only
  split
  · exact .refl
  · exact led_adoptBuild parent _

/-- A fork is refused, or it installs a copy of what a running process has. -/
theorem fork_cases (k : Kernel) (parent : Pid) :
    (∃ why, k.fork parent = k.refuse why) ∨
      ∃ i space, k.table.runningSlot parent = .ok i ∧ (k.table.slotAt i).space = some space ∧
        k.fork parent = (k.install parent space.copy).andThen fun p k =>
          ⟨.ok p, k, [.forked parent p]⟩ := by
  unfold fork
  cases hs : k.table.runningSlot parent with
  | error why => exact .inl ⟨why, rfl⟩
  | ok i =>
    dsimp only
    cases hspace : (k.table.slotAt i).space with
    | none => exact .inl ⟨k.table.badStatus i parent, rfl⟩
    | some space => exact .inr ⟨i, space, rfl, hspace, rfl⟩

theorem led_fork (parent : Pid) : (x.kernel.fork parent).Led x fun p => [.born p] := by
  rcases x.kernel.fork_cases parent with ⟨why, h⟩ | ⟨i, space, -, -, h⟩ <;> rw [h]
  · exact led_refuse why _
  · have htell := andThen_tell (x.kernel.install parent space.copy) fun p => [.forked parent p]
    exact (led_install parent space.copy).of_agrees htell

/-! ## Ending -/

theorem wakeProcess_some {k : Kernel} {p : Pid} {i : Nat} (h : k.table.slotOf? p = some i) :
    k.wakeProcess (some p) = k.wake i := by
  rw [wakeProcess, Option.bind_some, h]

/-- The kernel in which a process has ended, before anybody is woken. -/
def fallen (k : Kernel) (i : Nat) (p : Pid) (code : ExitCode) : Kernel :=
  { k with table := k.table.fall i p code }

/-- The table in which a process has become a zombie and still has its children. -/
private def ended (t : Table) (i : Nat) (code : ExitCode) : Table :=
  t.setSlot i { t.slotAt i with status := .zombie, exitCode := some code, space := none }

/-- The orphans are looked for when the process is a zombie already, which is none of them. -/
private theorem childSlots_ended {t : Table} (hr : t.Ranked) {i : Nat} {p : Pid} {code : ExitCode}
    (hp : (t.slotAt i).holds p = true) : (ended t i code).childSlots p = t.childSlots p := by
  have hi : i < t.slots.length := Table.lt_capacity_of_holds hp
  have hne : (t.slotAt i).parent ≠ some p := fun hparent => hr.parent_ne hp hparent rfl
  have hslots : t.slots = t.slots.take i ++ t.slotAt i :: t.slots.drop (i + 1) := by
    rw [Table.slotAt_getElem hi, List.getElem_cons_drop, List.take_append_drop]
  have hself : (t.slotAt i).isChildOf p = false := by simp [Slot.isChildOf, hne]
  have hzombie : Slot.isChildOf
      { t.slotAt i with status := .zombie, exitCode := some code, space := none } p = false := by
    simp [Slot.isChildOf, hne]
  rw [Table.childSlots, ended, Table.setSlot, List.set_eq_take_append_cons_drop, if_pos hi,
    List.filter_append, List.filter_cons_of_neg (by simp [hzombie]), Table.childSlots]
  conv_rhs => rw [hslots, List.filter_append, List.filter_cons_of_neg (by simp [hself])]

private theorem finish_with_zombies {k : Kernel} {i j : Nat} {p : Pid} {code : ExitCode}
    (told : List Event) (hz : ((ended k.table i code).childSlots p).any (·.isZombie) = true)
    (hj : (k.table.fall i p code).slotOf? k.table.adopter = some j) :
    k.finish i p code told =
      ⟨.ok (), (((k.fallen i p code).wake j).wakeProcess (k.table.slotAt i).parent).wake i,
        told ++ adoptions (ended k.table i code) p ++
          [.exited p code (((k.table.slotAt i).space.map AddressSpace.pageCount).getD 0)
            ((ended k.table i code).childSlots p).length k.table.adopter]⟩ := by
  rw [ended] at hz
  rw [Table.fall] at hj
  simp only [finish, hz, if_true, hj]
  rfl

private theorem finish_without_zombies {k : Kernel} {i : Nat} {p : Pid} {code : ExitCode}
    (told : List Event) (hz : ((ended k.table i code).childSlots p).any (·.isZombie) = false) :
    k.finish i p code told =
      ⟨.ok (), ((k.fallen i p code).wakeProcess (k.table.slotAt i).parent).wake i,
        told ++ adoptions (ended k.table i code) p ++
          [.exited p code (((k.table.slotAt i).space.map AddressSpace.pageCount).getD 0)
            ((ended k.table i code).childSlots p).length k.table.adopter]⟩ := by
  rw [ended] at hz
  simp only [finish, hz, Bool.false_eq_true, if_false]
  rfl

/-- The slots whose callers are woken, in order, when the process of slot `i` ends: the adopter's if
it is handed a zombie, the slot `j` of the parent, and its own. -/
def wakeOrder (t : Table) (p : Pid) (j i : Nat) : List Nat :=
  (if (t.childSlots p).any (·.isZombie) then [0] else []) ++ [j, i]

theorem mem_wakeOrder {t : Table} {p : Pid} {i j m : Nat} : m ∈ wakeOrder t p j i ↔
    m = i ∨ m = j ∨ m = 0 ∧
      ∃ n, (t.slotAt n).isChildOf p = true ∧ (t.slotAt n).isZombie = true := by
  have hany : (t.childSlots p).any (·.isZombie) = true ↔
      ∃ n, (t.slotAt n).isChildOf p = true ∧ (t.slotAt n).isZombie = true := by
    rw [Table.childSlots, List.any_filter, Table.any_slots rfl]
    simp only [Bool.and_eq_true]
  rw [← hany, wakeOrder, List.mem_append]
  split
  · rename_i hz
    simp only [List.mem_cons, List.not_mem_nil, or_false, hz, and_true]
    omega
  · rename_i hz
    simp only [List.mem_cons, List.not_mem_nil, hz, Bool.false_eq_true, and_false, or_false,
      false_or]
    exact or_comm

/-- When a process ends, its own callers and its parent's are woken, and the adopter's if it is
handed a zombie. The adopter is still there. -/
theorem finish_eq (h : x.Sound) {i j : Nat} {p q : Pid} (hp : (x.table.slotAt i).holds p = true)
    (hne : p ≠ x.table.adopter) (hq : (x.table.slotAt i).parent = some q)
    (hj : (x.table.slotAt j).holds q = true) (code : ExitCode) (told : List Event) :
    x.kernel.finish i p code told =
      ⟨.ok (), (wakeOrder x.table p j i).foldl wake (x.kernel.fallen i p code),
        told ++ adoptions x.table p ++
          [.exited p code (((x.table.slotAt i).space.map AddressSpace.pageCount).getD 0)
            (x.table.childSlots p).length x.table.adopter]⟩ := by
  have hfall : (x.table.fall i p code).Sound := h.table.fall h.ranked hp hne
  have hslot : (x.kernel.fallen i p code).table.slotOf? q = some j :=
    hfall.slotOf?_of_holds ((h.ranked.holds_fall hp j q).trans hj)
  have hadopter : (x.table.fall i p code).slotOf? x.kernel.table.adopter = some 0 :=
    hfall.slotOf?_adopter
  have horphans : (ended x.table i code).childSlots p = x.table.childSlots p :=
    childSlots_ended h.ranked hp
  have htold : adoptions (ended x.table i code) p = adoptions x.table p := by
    rw [adoptions, Table.children, horphans]
    rfl
  have hslot' := ((x.kernel.fallen i p code).continues_wake 0).slotOf?.trans hslot
  cases hz : ((ended x.table i code).childSlots p).any (·.isZombie) with
  | true =>
    -- A zombie is among the orphans: the adopter's callers are woken first.
    rw [finish_with_zombies told hz hadopter, hq, wakeProcess_some hslot', htold, horphans,
      wakeOrder, if_pos (by rw [← horphans, hz])]
    rfl
  | false =>
    rw [finish_without_zombies (k := x.kernel) told hz, hq, wakeProcess_some hslot, htold, horphans,
      wakeOrder, if_neg (by rw [← horphans, hz]; decide)]
    rfl

/-- The adopter is still there when a process other than it has ended. -/
theorem finish_ok (h : x.Sound) {i : Nat} {p : Pid} (hp : (x.table.slotAt i).holds p = true)
    (hne : p ≠ x.table.adopter) (code : ExitCode) (told : List Event) :
    (x.kernel.finish i p code told).result = .ok () := by
  have hi0 : i ≠ 0 := fun h0 => hne ((h.table.eq_zero_iff hp).mp h0)
  obtain ⟨q, hq, j, hj, -⟩ := h.table.parent_alive i hi0 (Slot.holds_iff.mp hp).1
  rw [finish_eq h hp hne hq hj code told]

theorem moves_wakes {blocked : Multiset Waiter} {owed : List Nat} (debts : List Nat) (k : Kernel) :
    Scene.Moves ⟨k, blocked, debts ++ owed⟩ [] ⟨debts.foldl wake k, blocked, owed⟩ := by
  induction debts generalizing k with
  | nil => exact .refl
  | cons i rest ih => exact .step .wake (ih (k.wake i))

theorem led_finish (h : x.Sound) {i : Nat} {p : Pid} {code : ExitCode} {told : List Event}
    (hp : (x.table.slotAt i).holds p = true) (ha : (x.table.slotAt i).status.isAlive = true)
    (hne : p ≠ x.table.adopter) :
    (x.kernel.finish i p code told).Led x fun _ => [.ended p code] := by
  have hi0 : i ≠ 0 := fun h0 => hne ((h.table.eq_zero_iff hp).mp h0)
  obtain ⟨q, hq, j, hj, -⟩ := h.table.parent_alive i hi0 (Slot.inUse_of_alive ha)
  have hdebts : ∀ m, m ∈ wakeOrder x.table p j i ↔ _ := fun m => mem_wakeOrder
  have hfall : Scene.Move x [.ended p code]
      ⟨x.kernel.fallen i p code, x.blocked, wakeOrder x.table p j i ++ x.owed⟩ := by
    refine .fall hp ha hne ((hdebts i).mpr (.inl rfl)) (fun r m hparent hm => ?_) fun hex => ?_
    · rw [hq] at hparent
      rw [← Option.some.inj hparent] at hm
      exact (hdebts m).mpr (.inr (.inl (h.table.holds_unique m j q hm hj)))
    · exact (hdebts 0).mpr (.inr (.inr ⟨rfl, hex⟩))
  rw [Led, finish_eq h hp hne hq hj code told]
  exact .step hfall (moves_wakes _ _)

/-- An exit is refused, or the adopter panics, or a living process other than it ends. -/
theorem exit_cases (k : Kernel) (p : Pid) (code : ExitCode) :
    (∃ why, k.exit p code = k.refuse why) ∨ k.exit p code = k.fail (.adopterExit p code) ∨
      ∃ i told, k.table.slotOf? p = some i ∧ (k.table.slotAt i).status.isAlive = true ∧
        p ≠ k.table.adopter ∧ k.exit p code = k.finish i p code told := by
  unfold exit
  cases hs : k.table.slotOf? p with
  | none => exact .inl ⟨.noProcess p, rfl⟩
  | some i =>
    dsimp only
    split
    · exact .inr (.inl rfl)
    · rename_i hne
      split
      · rename_i hblocked
        exact .inr (.inr ⟨i, _, rfl, hblocked.2, hne, rfl⟩)
      · split
        · rename_i hz
          refine .inr (.inr ⟨i, _, rfl, ?_, hne, rfl⟩)
          cases hst : (k.table.slotAt i).status <;> simp_all [Status.canBecome, Status.isAlive]
        · exact .inl ⟨k.table.badStatus i p, rfl⟩

theorem led_exit (h : x.Sound) (p : Pid) (code : ExitCode) :
    (x.kernel.exit p code).Led x fun _ => [.ended p code] := by
  rcases x.kernel.exit_cases p code with ⟨why, hr⟩ | hr | ⟨i, told, hs, ha, hne, hr⟩ <;> rw [hr]
  · exact led_refuse why _
  · exact led_fail _ _
  · exact led_finish h (Table.holds_of_slotOf? hs) ha hne

/-! ## Collecting -/

/-- A zombie without callers is cleared away without contradiction. -/
theorem collect_eq (h : x.Sound) {parent p : Pid} {i : Nat} {code : ExitCode}
    (hp : (x.table.slotAt i).holds p = true) (hz : (x.table.slotAt i).isZombie = true) :
    x.kernel.collect parent i p code =
      ⟨.ok code, { x.kernel with table := x.table.vacate i p }, [.reaped parent p code]⟩ := by
  obtain ⟨t', ht⟩ := h.accounted.exists_clear? h.table hp hz
  obtain ⟨pool, hpool, rfl⟩ := Table.clear?_eq_some ht
  rw [PidPool.release?_eq_some hpool] at ht
  rw [collect]
  rw [ht]

theorem led_collect (h : x.Sound) {parent p : Pid} {i : Nat} {code : ExitCode}
    (hp : (x.table.slotAt i).holds p = true) (hz : (x.table.slotAt i).isZombie = true)
    (hempty : (x.table.slotAt i).waiters = 0) (hparent : (x.table.slotAt i).parent = some parent)
    (hcode : (x.table.slotAt i).exitCode = some code) :
    (x.kernel.collect parent i p code).Led x fun c => [.collected parent p c] := by
  rw [collect_eq h hp hz]
  exact (Scene.Move.drop hp hz hempty hparent hcode).moves

/-- What a search finds can be collected. -/
theorem led_collect_found (h : x.Sound) {parent p : Pid} {target : Target} {i : Nat}
    {code : ExitCode} (hf : x.table.find parent target = .found i p code) :
    (x.kernel.collect parent i p code).Led x fun c => [.collected parent p c] := by
  obtain ⟨hm, hempty, hz, hcode⟩ := Slot.remains?_eq_some.mp (Table.find_eq_found hf)
  exact led_collect h (Slot.holds_of_matching? hm) hz hempty (Slot.parent_of_matching? hm) hcode

/-- A search by a blocked caller, or one about to block, is refused, finds a child, or has to wait.
-/
theorem look_cases (k : Kernel) (c : Caller) :
    (∃ why, k.look c = k.refuse why) ∨
      (∃ i p code, k.table.find c.parent c.target = .found i p code ∧
        k.look c = (k.collect c.parent i p code).map fun code => .collected p code) ∨
      (k.table.slotAt c.slot).killed = false ∧ k.table.find c.parent c.target = .pending ∧
        k.look c = k.block c := by
  unfold look
  split
  · exact .inl ⟨.killed, rfl⟩
  · rename_i hk
    cases hf : k.table.find c.parent c.target with
    | found i p code => exact .inr (.inl ⟨i, p, code, rfl, rfl⟩)
    | noChildren => exact .inl ⟨.noChildren, rfl⟩
    | pending => exact .inr (.inr ⟨by simpa using hk, rfl, rfl⟩)

theorem tryWait_cases (k : Kernel) (parent : Pid) (target : Target) :
    (∃ why, k.tryWait parent target = k.refuse why) ∨ k.tryWait parent target = k.answer none ∨
      ∃ i p code, k.table.find parent target = .found i p code ∧
        k.tryWait parent target =
          (k.collect parent i p code).map fun code => some (p, code) := by
  unfold tryWait
  cases hs : k.table.aliveSlot parent with
  | error why => exact .inl ⟨why, rfl⟩
  | ok i =>
    dsimp only
    split
    · exact .inl ⟨.killed, rfl⟩
    · cases hf : k.table.find parent target with
      | found i p code => exact .inr (.inr ⟨i, p, code, rfl, rfl⟩)
      | pending => exact .inr (.inl rfl)
      | noChildren => exact .inl ⟨.noChildren, rfl⟩

theorem led_tryWait (h : x.Sound) (parent : Pid) (target : Target) :
    (x.kernel.tryWait parent target).Led x fun
      | some (p, code) => [.collected parent p code]
      | none => [] := by
  rcases x.kernel.tryWait_cases parent target with ⟨why, hr⟩ | hr | ⟨i, p, code, hf, hr⟩ <;> rw [hr]
  · exact led_refuse why _
  · exact .refl
  · exact (led_collect_found h hf).map

/-- A child that is collected by name is a zombie on whose behalf nobody is blocked. -/
theorem reap_cases (k : Kernel) (parent child : Pid) :
    (∃ why, k.reap parent child = k.refuse why) ∨
      ∃ i code, k.table.slotOf? child = some i ∧ (k.table.slotAt i).parent = some parent ∧
        (k.table.slotAt i).isZombie = true ∧ (k.table.slotAt i).exitCode = some code ∧
        (k.table.slotAt i).waiters = 0 ∧
        k.reap parent child = k.collect parent i child code := by
  unfold reap
  cases k.table.aliveSlot parent with
  | error why => exact .inl ⟨why, rfl⟩
  | ok _ =>
    dsimp only
    cases hs : k.table.slotOf? child with
    | none => exact .inl ⟨.noProcess child, rfl⟩
    | some i =>
      dsimp only
      split
      · rename_i hparent
        split
        · rename_i code hz hcode hempty
          exact .inr ⟨i, code, rfl, hparent, Slot.isZombie_iff.mpr hz, hcode, hempty, rfl⟩
        · exact .inl ⟨k.table.badStatus i child, rfl⟩
      · exact .inl ⟨.noChildren, rfl⟩

theorem led_reap (h : x.Sound) (parent child : Pid) :
    (x.kernel.reap parent child).Led x fun code => [.collected parent child code] := by
  rcases x.kernel.reap_cases parent child with
    ⟨why, hr⟩ | ⟨i, code, hs, hparent, hz, hcode, hempty, hr⟩ <;> rw [hr]
  · exact led_refuse why _
  · exact led_collect h (Table.holds_of_slotOf? hs) hz hempty hparent hcode

end Kernel

end Lifecycle
