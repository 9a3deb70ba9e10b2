import Lifecycle.Proofs.Scenario.Pairs
import Lifecycle.Scenario.Zombie
/-!
# The zombie on every schedule

The run goes through a few stages, whatever the order of turns. The parent is started and forks the
child. It does not end while the child lives, for it looks whether the child is a zombie before it
does. So the child ends first and is handed over as a zombie when the parent ends, and from then on
the two are collected in the order of their slots.
-/

namespace Lifecycle

namespace Scenario

namespace Zombie

open Machine

variable {a p c : Pid} {n : Nat} {m : Machine Body Director Note} {ph ph' : Phase Body}

theorem program_gentle (a : Pid) : (program a).Gentle where
  asks p st r h := by
    cases st <;> cases h
    rfl
  leads st r h := by cases st <;> cases h

theorem program_unwaiting (a : Pid) : (program a).Unwaiting := by
  intro p st target h
  cases st <;> cases h

/-- The parent looks whether the child has ended, or naps before it looks again. -/
inductive Watches (c : Pid) : Phase Body → Prop
  | looking : Watches c (.active (.looking c))
  | waiting : Watches c (.active (.waiting c))
  | napping : Watches c (.napping (.waiting c))
  | pausing : Watches c (.pausing (.waiting c))

/-- How far a run with a given parent and child is. -/
inductive Stage (a p c : Pid) (n : Nat) (m : Machine Body Director Note) : Prop
  | opening (opening : Opening (program a) a p .starting .forking n m)
  | watching {ph ph' : Phase Body} (awaits : (program a).Awaits m.main []) (watches : Watches c ph)
      (begins : Begins .child ph')
      (tableau : Tableau a n m [⟨p, ph⟩, ⟨c, ph'⟩] [.parent p, .child c] [.live p a, .live c p])
  /-- The child has ended, and its parent will see it or has seen it. -/
  | ended {ph : Phase Body} (awaits : (program a).Awaits m.main [])
      (sees : Watches c ph ∨ ph = .active (.ending 0))
      (tableau : Tableau a n m [⟨p, ph⟩, ⟨c, .gone⟩] [.parent p, .child c]
        [.live p a, .dead c p 0])
  | closing (closing : Closing (program a) a p c 0 n m [⟨p, .gone⟩, ⟨c, .gone⟩]
      [.parent p, .child c])

/-- A parent that sees its child alive will nap. -/
theorem hear_alive (p : Pid) {status : Option Status} (h : status ≠ some .zombie) :
    hear p (.looking c) (.ok (.status status)) = (.waiting c, []) := by
  cases status with
  | none => rfl
  | some s =>
    cases s with
    | zombie => exact absurd rfl h
    | _ => rfl

/-- The parent goes on watching until it sees that the child has ended. -/
theorem turn_watches (hw : Watches c ph) {t' : Thread Body} {l : List Tenancy}
    (h : Tableau a n m [⟨p, ph⟩, t'] [.parent p, .child c] l) :
    (m.turn (program a) (.thread 0)).main = m.main ∧ ∃ ph',
      (Watches c ph' ∨ ph' = .active (.ending 0) ∧ m.kernel.table.status? c = some .zombie) ∧
      Tableau a n (m.turn (program a) (.thread 0)) [⟨p, ph'⟩, t'] [.parent p, .child c] l := by
  cases hw with
  | looking =>
    obtain ⟨hmain, ht⟩ := h.served (program_gentle a) (program_unwaiting a) (i := 0) rfl rfl rfl
    refine ⟨hmain, ?_⟩
    by_cases hz : m.kernel.table.status? c = some .zombie
    · rw [hz] at ht
      exact ⟨_, .inr ⟨rfl, hz⟩, ht⟩
    · rw [show (program a).hear p (.looking c) _ = _ from hear_alive p hz] at ht
      exact ⟨_, .inl .waiting, ht⟩
  | waiting =>
    obtain ⟨hmain, ht⟩ := h.shift (program_gentle a) (program_unwaiting a) (i := 0) rfl (.nap rfl)
    exact ⟨hmain, _, .inl .napping, ht⟩
  | napping =>
    obtain ⟨hmain, ht⟩ := h.shift (program_gentle a) (program_unwaiting a) (i := 0) rfl .rise
    exact ⟨hmain, _, .inl .pausing, ht⟩
  | pausing =>
    obtain ⟨hmain, ht⟩ := h.awake (program_gentle a) (program_unwaiting a) (i := 0) rfl
    exact ⟨hmain, _, .inl .looking, ht⟩

/-- While the child lives its parent does not end. -/
theorem turn_watching (hcast : Cast a p c n) (ha : (program a).Awaits m.main [])
    (hw : Watches c ph) (hb : Begins .child ph')
    (h : Tableau a n m [⟨p, ph⟩, ⟨c, ph'⟩] [.parent p, .child c] [.live p a, .live c p]) (t : Turn) :
    Stage a p c n (m.turn (program a) t) := by
  match t with
  | .main =>
    obtain ⟨hawaits, ht⟩ := awaits_live h (program_gentle a) ha List.mem_cons_self
      (fun q code hmem => by simp [Tenancy.live, Tenancy.dead] at hmem)
    exact .watching hawaits hw hb ht
  | .thread 0 =>
    obtain ⟨hmain, ph₁, hw' | ⟨-, hz⟩, ht⟩ := turn_watches hw h
    · exact .watching (hmain ▸ ha) hw' hb ht
    · cases (h.roster.status? h.sound.table (i := 1) rfl rfl).mp hz
  | .thread 1 =>
    cases hb with
    | starting =>
      obtain ⟨hmain, ht⟩ := h.shift (program_gentle a) (program_unwaiting a) (i := 1) rfl .start
      exact .watching (hmain ▸ ha) hw .active ht
    | active =>
      obtain ⟨hmain, ht⟩ := h.finish (program_gentle a) (program_unwaiting a) (i := 1) rfl rfl
      rw [hcast.ended_child] at ht
      exact .ended (hmain ▸ ha) (.inl hw) ht
  | .thread (i + 2) =>
    rw [h.still fun q ph hi => by cases hi]
    exact .watching ha hw hb h

/-- The parent sees that its child has ended, and ends. -/
theorem turn_ended (hcast : Cast a p c n) (ha : (program a).Awaits m.main [])
    (hs : Watches c ph ∨ ph = .active (.ending 0))
    (h : Tableau a n m [⟨p, ph⟩, ⟨c, .gone⟩] [.parent p, .child c] [.live p a, .dead c p 0])
    (t : Turn) : Stage a p c n (m.turn (program a) t) := by
  match t with
  | .main =>
    obtain ⟨hawaits, ht⟩ := awaits_live h (program_gentle a) ha List.mem_cons_self
      (fun q code hmem => by simp [Tenancy.live, Tenancy.dead, hcast.parent_ne.symm] at hmem)
    exact .ended hawaits hs ht
  | .thread 0 =>
    rcases hs with hw | rfl
    · obtain ⟨hmain, ph₁, hsees, ht⟩ := turn_watches hw h
      exact .ended (hmain ▸ ha) (hsees.imp_right And.left) ht
    · obtain ⟨hmain, ht⟩ := h.finish (program_gentle a) (program_unwaiting a) (i := 0) rfl rfl
      rw [hcast.ended_bereft] at ht
      exact .closing (.owed (hmain ▸ ha) .present ht)
  | .thread 1 =>
    rw [h.still fun q ph hi => by cases hi; rfl]
    exact .ended ha hs h
  | .thread (i + 2) =>
    rw [h.still fun q ph hi => by cases hi]
    exact .ended ha hs h

namespace Stage

theorem turn (h : Stage a p c n m) (hcast : Cast a p c n) (t : Turn) :
    Stage a p c n (m.turn (program a) t) := by
  cases h with
  | opening opening =>
    rcases opening.turn hcast (program_gentle a) (program_unwaiting a) rfl rfl rfl t with
      hopening | ⟨hawaits, ht⟩
    · exact .opening hopening
    · exact .watching hawaits .looking .starting ht
  | watching awaits watches begins tableau =>
    exact turn_watching hcast awaits watches begins tableau t
  | ended awaits sees tableau => exact turn_ended hcast awaits sees tableau t
  | closing closing => exact .closing (closing.turn (program_gentle a) (by simp) t)

/-- The report on a run that is over. -/
theorem reported (h : Stage a p c n m) (hv : m.verdict?.isSome = true) :
    Settled a m.kernel (report m) ⟨p, c, [(p, 0), (c, 0)]⟩ := by
  obtain ⟨verdict, hverdict⟩ := Option.isSome_iff_exists.mp hv
  have hmain := ended_of_verdict? hverdict
  cases h with
  | opening opening => exact absurd hmain (opening.not_ended verdict)
  | watching awaits _ _ _ | ended awaits _ _ =>
    rw [hmain] at awaits
    cases awaits
  | closing closing =>
    obtain ⟨hyields, halone⟩ := closing.ended hverdict
    obtain ⟨l, htableau⟩ := closing.tableau?
    refine ⟨?_, halone⟩
    rw [report, hyields, htableau.notes_eq]
    rfl

end Stage

end Zombie

end Scenario

end Lifecycle
