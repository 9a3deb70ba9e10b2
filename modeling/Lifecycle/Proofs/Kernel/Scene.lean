import Lifecycle.Kernel.Reachable
import Lifecycle.Proofs.Table.Identities
import Mathlib.Data.Multiset.Count
/-!
# Scenes and moves

A scene is a kernel in the middle of an act: with the callers blocked in it, and the slots whose
callers are still to be woken before the act is over. Every act comes down to a few kinds of moves
on scenes. What a single move keeps is therefore kept by every act.
-/

namespace Lifecycle

/-- What a call did to a process: one was created, one ended, or one was collected on behalf of its
parent. -/
inductive Deed where
  | born (pid : Pid)
  | ended (pid : Pid) (code : ExitCode)
  | collected (parent pid : Pid) (code : ExitCode)
deriving DecidableEq

/-- A kernel, the callers blocked in it, and the slots whose callers are still to be woken. -/
structure Scene where
  kernel : Kernel
  blocked : Multiset Waiter
  owed : List Nat

namespace Slot

theorem Continues.rouse (s : Slot) : s.Continues s.rouse := by
  rw [Slot.rouse]
  split
  · rename_i hs
    exact .of_alive (by rw [hs]; rfl) rfl rfl rfl rfl
  · exact .refl s

end Slot

namespace Kernel

theorem wake_of_waiters {k : Kernel} {i : Nat} (h : (k.table.slotAt i).waiters ≠ 0) :
    k.wake i = ⟨k.table.modifySlot i Slot.rouse, k.channels.wake i⟩ := by
  rw [wake, if_neg h]

theorem wake_of_none {k : Kernel} {i : Nat} (h : (k.table.slotAt i).waiters = 0) :
    k.wake i = k := by
  rw [wake, if_pos h]

theorem continues_wake (k : Kernel) (i : Nat) : k.table.Continues (k.wake i).table := by
  by_cases h : (k.table.slotAt i).waiters = 0
  · rw [wake_of_none h]
    exact .refl _
  · rw [wake_of_waiters h]
    exact .modifySlot (Table.lt_capacity_of_waiters h) (.rouse _)

/-- Waking changes neither the mark of a process nor the number of its callers. -/
theorem slotAt_wake (k : Kernel) (i j : Nat) :
    ((k.wake i).table.slotAt j).killed = (k.table.slotAt j).killed ∧
      ((k.wake i).table.slotAt j).waiters = (k.table.slotAt j).waiters := by
  by_cases h : (k.table.slotAt i).waiters = 0
  · rw [wake_of_none h]
    exact ⟨rfl, rfl⟩
  · rw [wake_of_waiters h]
    dsimp only
    rw [Table.slotAt_modifySlot (Table.lt_capacity_of_waiters h)]
    split
    · rename_i hij
      rw [← hij]
      exact ⟨Slot.killed_rouse _, Slot.waiters_rouse _⟩
    · exact ⟨rfl, rfl⟩

end Kernel

namespace Scene

/-- The table of a scene. -/
abbrev table (x : Scene) : Table := x.kernel.table

/-- The scene with a slot rewritten. -/
def rewrite (x : Scene) (i : Nat) (f : Slot → Slot) : Kernel :=
  { x.kernel with table := x.table.modifySlot i f }

/-- The moves that acts consist of, with the deeds they stand for. -/
inductive Move : Scene → List Deed → Scene → Prop
  /-- A process goes on. -/
  | ease {x : Scene} {i : Nat} {f : Slot → Slot}
      (inUse : (x.table.slotAt i).inUse = true)
      (goes : (x.table.slotAt i).Continues (f (x.table.slotAt i)))
      (killed : (f (x.table.slotAt i)).killed = (x.table.slotAt i).killed)
      (waiters : (f (x.table.slotAt i)).waiters = (x.table.slotAt i).waiters) :
      Move x [] ⟨x.rewrite i f, x.blocked, x.owed⟩
  /-- A living process is marked as killed. -/
  | mark {x : Scene} {i : Nat} (alive : (x.table.slotAt i).status.isAlive = true) (other : i ≠ 0) :
      Move x [] ⟨x.rewrite i fun s => { s with killed := true }, x.blocked, i :: x.owed⟩
  /-- A free slot is taken for the child of a living process. -/
  | take {x : Scene} {i : Nat} {parent : Pid} (free : x.table.freeSlot? = some i)
      (living : x.table.Living parent) :
      Move x [.born x.table.pool.issue.1]
        ⟨{ x.kernel with table := x.table.fill i parent }, x.blocked, x.owed⟩
  /-- A living process ends. Its own callers and its parent's are to be woken, and the adopter's if
  it gets a zombie. -/
  | fall {x : Scene} {i : Nat} {p : Pid} {code : ExitCode} {debts : List Nat}
      (holds : (x.table.slotAt i).holds p = true)
      (alive : (x.table.slotAt i).status.isAlive = true) (other : p ≠ x.table.adopter)
      (self : i ∈ debts)
      (parent : ∀ q j, (x.table.slotAt i).parent = some q → (x.table.slotAt j).holds q = true →
        j ∈ debts)
      (adopter : (∃ j, (x.table.slotAt j).isChildOf p = true ∧
        (x.table.slotAt j).isZombie = true) → 0 ∈ debts) :
      Move x [.ended p code]
        ⟨{ x.kernel with table := x.table.fall i p code }, x.blocked, debts ++ x.owed⟩
  /-- The callers of a slot are woken. -/
  | wake {k : Kernel} {blocked : Multiset Waiter} {i : Nat} {owed : List Nat} :
      Move ⟨k, blocked, i :: owed⟩ [] ⟨k.wake i, blocked, owed⟩
  /-- A zombie with no callers left is cleared away for its parent. -/
  | drop {x : Scene} {i : Nat} {p q : Pid} {code : ExitCode}
      (remains : (x.table.slotAt i).holds p = true) (zombie : (x.table.slotAt i).isZombie = true)
      (empty : (x.table.slotAt i).waiters = 0) (parent : (x.table.slotAt i).parent = some q)
      (code_eq : (x.table.slotAt i).exitCode = some code) :
      Move x [.collected q p code]
        ⟨{ x.kernel with table := x.table.vacate i p }, x.blocked, x.owed⟩
  /-- A caller leaves its slot. If it is the last one to leave a zombie, the callers of the zombie's
  parent are to be woken. -/
  | leave {k : Kernel} {w : Waiter} {blocked : Multiset Waiter} {owed : List Nat}
      {f : Slot → Slot} (debts : List Nat)
      (goes : (k.table.slotAt w.caller.slot).Continues (f (k.table.slotAt w.caller.slot)))
      (killed : (f (k.table.slotAt w.caller.slot)).killed = (k.table.slotAt w.caller.slot).killed)
      (waiters : (k.table.slotAt w.caller.slot).waiters =
        (f (k.table.slotAt w.caller.slot)).waiters + 1)
      (parent : (f (k.table.slotAt w.caller.slot)).waiters = 0 →
        (k.table.slotAt w.caller.slot).isZombie = true → ∀ q j,
        (k.table.slotAt w.caller.slot).parent = some q → (k.table.slotAt j).holds q = true →
        j ∈ debts) :
      Move ⟨k, w ::ₘ blocked, owed⟩ []
        ⟨{ k with table := k.table.modifySlot w.caller.slot f }, blocked, debts ++ owed⟩
  /-- A caller whose process lives, has not been killed and has a child to wait for goes to sleep.
  -/
  | rest {x : Scene} {c : Caller} {f : Slot → Slot}
      (holds : (x.table.slotAt c.slot).holds c.parent = true)
      (alive : (x.table.slotAt c.slot).status.isAlive = true)
      (unkilled : (x.table.slotAt c.slot).killed = false)
      (pending : x.table.find c.parent c.target = .pending)
      (goes : (x.table.slotAt c.slot).Continues (f (x.table.slotAt c.slot)))
      (killed : (f (x.table.slotAt c.slot)).killed = (x.table.slotAt c.slot).killed)
      (waiters : (f (x.table.slotAt c.slot)).waiters = (x.table.slotAt c.slot).waiters + 1) :
      Move x [] ⟨x.rewrite c.slot f, ⟨c, x.kernel.channels.ticket c.slot⟩ ::ₘ x.blocked, x.owed⟩

/-- Moves one after the other, with all their deeds. -/
inductive Moves : Scene → List Deed → Scene → Prop
  | refl {x : Scene} : Moves x [] x
  | step {x y z : Scene} {ds ds' : List Deed} (h : Move x ds y) (hs : Moves y ds' z) :
      Moves x (ds ++ ds') z

theorem Move.moves {x y : Scene} {ds : List Deed} (h : Move x ds y) : Moves x ds y := by
  simpa using Moves.step h .refl

theorem Moves.trans {x y z : Scene} {ds ds' : List Deed} (h : Moves x ds y) (h' : Moves y ds' z) :
    Moves x (ds ++ ds') z := by
  induction h with
  | refl => exact h'
  | step hm _ ih =>
    rw [List.append_assoc]
    exact .step hm (ih h')

/-- What every move keeps is kept by moves one after the other. -/
theorem Moves.keep {P : Scene → Prop} (hP : ∀ {x y ds}, P x → Move x ds y → P y) {x y : Scene}
    {ds : List Deed} (h : Moves x ds y) (hx : P x) : P y := by
  induction h with
  | refl => exact hx
  | step hm _ ih => exact ih (hP hx hm)

/-- A move that does no deed lets all processes go on. -/
theorem Move.continues {x y : Scene} (h : Move x [] y) : x.table.Continues y.table := by
  generalize hds : ([] : List Deed) = ds at h
  cases h with
  | ease inUse goes killed waiters => exact .modifySlot (Table.lt_capacity_of_inUse inUse) goes
  | mark alive other =>
    exact .modifySlot (Table.lt_capacity_of_inUse (Slot.inUse_of_alive alive)) (.mark alive)
  | take free living => simp at hds
  | fall holds alive other self parent adopter => simp at hds
  | @wake k blocked i owed => exact k.continues_wake i
  | drop remains zombie empty parent code_eq => simp at hds
  | leave debts goes killed waiters parent =>
    exact .modifySlot (Table.lt_capacity_of_waiters (by rw [waiters]; omega)) goes
  | rest holds alive unkilled pending goes killed waiters =>
    exact .modifySlot (Table.lt_capacity_of_holds holds) goes

theorem Moves.continues {x y : Scene} (h : Moves x [] y) : x.table.Continues y.table := by
  generalize hds : ([] : List Deed) = ds at h
  induction h with
  | refl => exact .refl _
  | step hm _ ih =>
    obtain ⟨rfl, rfl⟩ := List.append_eq_nil_iff.mp hds.symm
    exact hm.continues.trans (ih rfl)

/-- Moves that do a single deed do it in one move, before and after which all processes go on. -/
theorem Moves.split {x y : Scene} {d : Deed} (h : Moves x [d] y) :
    ∃ x' y', Moves x [] x' ∧ Move x' [d] y' ∧ Moves y' [] y := by
  generalize hds : [d] = ds at h
  induction h with
  | refl => simp at hds
  | @step x z y ds ds' hm hs ih =>
    rcases List.append_eq_singleton_iff.mp hds.symm with ⟨rfl, rfl⟩ | ⟨rfl, rfl⟩
    · obtain ⟨x', y', hx, hd, hy⟩ := ih rfl
      exact ⟨x', y', .step hm hx, hd, hy⟩
    · exact ⟨x, z, .refl, hm, hs⟩

/-- The size of the table and its adopter are never changed. -/
theorem Move.fixed {x y : Scene} {ds : List Deed} (h : Move x ds y) :
    y.table.capacity = x.table.capacity ∧ y.table.adopter = x.table.adopter := by
  by_cases hds : ds = []
  · subst hds
    exact ⟨h.continues.capacity, h.continues.adopter⟩
  · cases h with
    | take free living => exact ⟨Table.capacity_take, rfl⟩
    | fall holds alive other self parent adopter => exact ⟨Table.capacity_fall, rfl⟩
    | drop remains zombie empty parent code_eq => exact ⟨Table.capacity_drop, rfl⟩
    | _ => exact absurd rfl hds

end Scene

end Lifecycle
