import Lifecycle.Proofs.Scenario.Zombie
import Lifecycle.Scenario.Orphan
/-!
# The orphan on every schedule

The parent ends as soon as it has forked, while the child gives way until it is the adopter's. So the
parent ends first, whatever the order of turns. The adopter may collect the parent before the child
ends or later, but in either case before the child. The child tells of its new parent once it has seen
it, and nobody takes it away any more.
-/

namespace Lifecycle

namespace Scenario

namespace Orphan

open Machine

variable {a p c : Pid} {n : Nat} {m : Machine Body Director Note} {ph : Phase Body} {e : Tenancy}
  {reaped : List (Pid × ExitCode)}

theorem program_gentle (a : Pid) : (program a).Gentle where
  asks p st r h := by
    cases st <;> cases h <;> rfl
  leads st r h := by cases st <;> cases h

theorem program_unwaiting (a : Pid) : (program a).Unwaiting := by
  intro p st target h
  cases st <;> cases h

/-- The child looks who its parent is, or gives way before it looks again. -/
inductive Seeks : Phase Body → Prop
  | starting : Seeks (.starting .looking)
  | looking : Seeks (.active .looking)
  | waiting : Seeks (.active .waiting)
  | pausing : Seeks (.pausing .waiting)

/-- How far a run with a given parent and child is. -/
inductive Stage (a p c : Pid) (n : Nat) (m : Machine Body Director Note) : Prop
  | opening (opening : Opening (program a) a p .starting .forking n m)
  | forked {ph : Phase Body} (awaits : (program a).Awaits m.main []) (seeks : Seeks ph)
      (tableau : Tableau a n m [⟨p, .active (.ending 0)⟩, ⟨c, ph⟩] [.parent p]
        [.live p a, .live c p])
  /-- The parent has ended, and its child will see it or has seen it. -/
  | orphaned {ph : Phase Body} {reaped : List (Pid × ExitCode)} {e : Tenancy}
      (awaits : (program a).Awaits m.main reaped) (elder : Elder a p reaped e)
      (sees : Seeks ph ∨ ph = .active .telling)
      (tableau : Tableau a n m [⟨p, .gone⟩, ⟨c, ph⟩] [.parent p] [e, .live c a])
  | told {reaped : List (Pid × ExitCode)} {e : Tenancy} (awaits : (program a).Awaits m.main reaped)
      (elder : Elder a p reaped e)
      (tableau : Tableau a n m [⟨p, .gone⟩, ⟨c, .active (.ending orphanCode)⟩]
        [.parent p, .orphan c (some a)] [e, .live c a])
  | closing (closing : Closing (program a) a p c orphanCode n m [⟨p, .gone⟩, ⟨c, .gone⟩]
      [.parent p, .orphan c (some a)])

/-- The child goes on seeking until it sees that it is the adopter's. -/
theorem turn_seeks (hs : Seeks ph) {t' : Thread Body} {l : List Tenancy}
    (h : Tableau a n m [t', ⟨c, ph⟩] [.parent p] l) :
    (m.turn (program a) (.thread 1)).main = m.main ∧ ∃ ph',
      (Seeks ph' ∨ ph' = .active .telling ∧ m.kernel.table.parent? c = some a) ∧
      Tableau a n (m.turn (program a) (.thread 1)) [t', ⟨c, ph'⟩] [.parent p] l := by
  cases hs with
  | starting =>
    obtain ⟨hmain, ht⟩ := h.shift (program_gentle a) (program_unwaiting a) (i := 1) rfl .start
    exact ⟨hmain, _, .inl .looking, ht⟩
  | looking =>
    obtain ⟨hmain, ht⟩ := h.served (program_gentle a) (program_unwaiting a) (i := 1) rfl rfl rfl
    refine ⟨hmain, _, ?_, ht⟩
    by_cases hp : m.kernel.table.parent? c = some a
    · exact .inr ⟨congrArg Phase.active (if_pos hp), hp⟩
    · have hwaiting : ((program a).hear c .looking
          (.ok (.parent (m.kernel.table.parent? c)))).1 = .waiting := if_neg hp
      rw [hwaiting]
      exact .inl .waiting
  | waiting =>
    obtain ⟨hmain, ht⟩ := h.shift (program_gentle a) (program_unwaiting a) (i := 1) rfl (.yield rfl)
    exact ⟨hmain, _, .inl .pausing, ht⟩
  | pausing =>
    obtain ⟨hmain, ht⟩ := h.awake (program_gentle a) (program_unwaiting a) (i := 1) rfl
    exact ⟨hmain, _, .inl .looking, ht⟩

/-- While the parent lives its child goes on seeking. -/
theorem turn_forked (hcast : Cast a p c n) (ha : (program a).Awaits m.main []) (hs : Seeks ph)
    (h : Tableau a n m [⟨p, .active (.ending 0)⟩, ⟨c, ph⟩] [.parent p] [.live p a, .live c p])
    (t : Turn) : Stage a p c n (m.turn (program a) t) := by
  match t with
  | .main =>
    obtain ⟨hawaits, ht⟩ := awaits_live h (program_gentle a) ha List.mem_cons_self
      (fun q code hmem => by simp [Tenancy.live, Tenancy.dead] at hmem)
    exact .forked hawaits hs ht
  | .thread 0 =>
    obtain ⟨hmain, ht⟩ := h.finish (program_gentle a) (program_unwaiting a) (i := 0) rfl rfl
    rw [hcast.ended_parent] at ht
    exact .orphaned (hmain ▸ ha) .present (.inl hs) ht
  | .thread 1 =>
    obtain ⟨hmain, ph₁, hs' | ⟨-, hp⟩, ht⟩ := turn_seeks hs h
    · exact .forked (hmain ▸ ha) hs' ht
    · have hparent := h.roster.parent? h.sound.table (i := 1) rfl rfl
      exact absurd (Option.some.inj (hparent.symm.trans hp)) hcast.parent_ne
  | .thread (i + 2) =>
    rw [h.still fun q ph hi => by cases hi]
    exact .forked ha hs h

/-- The child tells of its new parent. -/
theorem turn_orphaned (ha : (program a).Awaits m.main reaped) (he : Elder a p reaped e)
    (hs : Seeks ph ∨ ph = .active .telling)
    (h : Tableau a n m [⟨p, .gone⟩, ⟨c, ph⟩] [.parent p] [e, .live c a]) (t : Turn) :
    Stage a p c n (m.turn (program a) t) := by
  match t with
  | .main =>
    rcases awaits_elder h (program_gentle a) ha he rfl with
      ⟨reaped, e, hawaits, helder, ht⟩ | ⟨q, code, heq, -⟩
    · exact .orphaned hawaits helder hs ht
    · cases heq
  | .thread 0 =>
    rw [h.still fun q ph hi => by cases hi; rfl]
    exact .orphaned ha he hs h
  | .thread 1 =>
    rcases hs with hs | rfl
    · obtain ⟨hmain, ph₁, hsees, ht⟩ := turn_seeks hs h
      exact .orphaned (hmain ▸ ha) he (hsees.imp_right And.left) ht
    · obtain ⟨hmain, ht⟩ := h.served (program_gentle a) (program_unwaiting a) (i := 1) rfl rfl rfl
      rw [h.roster.parent? h.sound.table (i := 1) rfl rfl] at ht
      exact .told (hmain ▸ ha) he ht
  | .thread (i + 2) =>
    rw [h.still fun q ph hi => by cases hi]
    exact .orphaned ha he hs h

theorem turn_told (hcast : Cast a p c n) (ha : (program a).Awaits m.main reaped)
    (he : Elder a p reaped e)
    (h : Tableau a n m [⟨p, .gone⟩, ⟨c, .active (.ending orphanCode)⟩]
      [.parent p, .orphan c (some a)] [e, .live c a]) (t : Turn) :
    Stage a p c n (m.turn (program a) t) := by
  match t with
  | .main =>
    rcases awaits_elder h (program_gentle a) ha he rfl with
      ⟨reaped, e, hawaits, helder, ht⟩ | ⟨q, code, heq, -⟩
    · exact .told hawaits helder ht
    · cases heq
  | .thread 0 =>
    rw [h.still fun q ph hi => by cases hi; rfl]
    exact .told ha he h
  | .thread 1 =>
    obtain ⟨hmain, ht⟩ := h.finish (program_gentle a) (program_unwaiting a) (i := 1) rfl rfl
    rw [he.ended_child hcast] at ht
    exact .closing (.owed (hmain ▸ ha) he ht)
  | .thread (i + 2) =>
    rw [h.still fun q ph hi => by cases hi]
    exact .told ha he h

namespace Stage

theorem turn (h : Stage a p c n m) (hcast : Cast a p c n) (t : Turn) :
    Stage a p c n (m.turn (program a) t) := by
  cases h with
  | opening opening =>
    rcases opening.turn hcast (program_gentle a) (program_unwaiting a) rfl rfl rfl t with
      hopening | ⟨hawaits, ht⟩
    · exact .opening hopening
    · exact .forked hawaits .starting ht
  | forked awaits seeks tableau => exact turn_forked hcast awaits seeks tableau t
  | orphaned awaits elder sees tableau => exact turn_orphaned awaits elder sees tableau t
  | told awaits elder tableau => exact turn_told hcast awaits elder tableau t
  | closing closing => exact .closing (closing.turn (program_gentle a) (by simp) t)

/-- The report on a run that is over. -/
theorem reported (h : Stage a p c n m) (hv : m.verdict?.isSome = true) :
    Settled a m.kernel (report m) ⟨p, c, some a, [(p, 0), (c, orphanCode)]⟩ := by
  obtain ⟨verdict, hverdict⟩ := Option.isSome_iff_exists.mp hv
  have hmain := ended_of_verdict? hverdict
  cases h with
  | opening opening => exact absurd hmain (opening.not_ended verdict)
  | forked awaits _ _ | orphaned awaits _ _ _ | told awaits _ _ =>
    rw [hmain] at awaits
    cases awaits
  | closing closing =>
    obtain ⟨hyields, halone⟩ := closing.ended hverdict
    obtain ⟨l, htableau⟩ := closing.tableau?
    refine ⟨?_, halone⟩
    rw [report, hyields, htableau.notes_eq]
    rfl

end Stage

end Orphan

/-- On a table that has just been set up with room for three, whoever the adopter is, each of the two
scenarios reports the same on every schedule that comes to an end, the one that gives everybody a turn
over and over among them. The parent and its child are the first two processes. The adopter collects
the parent first and then the child, whether the child ended before its parent or after it, and only
the adopter is left. The orphan has seen that its parent is the adopter. -/
theorem pairs_of_boot {config : Config} (hc : 3 ≤ config.capacity) (journal : Journal) :
    ∃ k, Kernel.boot config = .ok k ∧
      let adopter := config.adopter
      let parent := PidPool.nth adopter 0
      let child := PidPool.nth adopter 1
      (let r : ZombieReport := ⟨parent, child, [(parent, 0), (child, 0)]⟩
      (∀ schedule,
        let m := (Machine.start k .starting journal).follow (Zombie.program adopter) schedule
        m.verdict?.isSome → Settled adopter m.kernel (Zombie.report m) r) ∧
      ((Zombie.machine k journal).verdict?.isSome →
        Settled adopter (zombie k journal).kernel (zombie k journal).report r)) ∧
      (let r : OrphanReport := ⟨parent, child, some adopter, [(parent, 0), (child, 42)]⟩
      (∀ schedule,
        let m := (Machine.start k .starting journal).follow (Orphan.program adopter) schedule
        m.verdict?.isSome → Settled adopter m.kernel (Orphan.report m) r) ∧
      ((Orphan.machine k journal).verdict?.isSome →
        Settled adopter (orphan k journal).kernel (orphan k journal).report r)) := by
  obtain ⟨k, hk⟩ := Kernel.exists_boot (Nat.lt_of_lt_of_le (by decide) hc)
  obtain ⟨-, -, hadopter, -⟩ := Table.boot_eq_ok (Kernel.boot_eq_ok hk).1
  refine ⟨k, hk, ?_⟩
  intro adopter parent child
  have hcast : Cast adopter parent child config.capacity := ⟨rfl, rfl, hc⟩
  have hzombie : Zombie.Stage adopter parent child config.capacity
      (Machine.start k .starting journal) := .opening (.directing rfl (.start hk _ journal))
  have horphan : Orphan.Stage adopter parent child config.capacity
      (Machine.start k .starting journal) := .opening (.directing rfl (.start hk _ journal))
  refine ⟨⟨fun schedule hv => ?_, fun hv => ?_⟩, fun schedule hv => ?_, fun hv => ?_⟩
  · exact (Machine.follow_keep (fun t h => h.turn hcast t) hzombie schedule).reported hv
  · have hrun : Zombie.Stage adopter parent child config.capacity (Zombie.machine k journal) := by
      rw [Zombie.machine, hadopter]
      exact Machine.run_keep (fun t h => h.turn hcast t) hzombie _
    exact hrun.reported hv
  · exact (Machine.follow_keep (fun t h => h.turn hcast t) horphan schedule).reported hv
  · have hrun : Orphan.Stage adopter parent child config.capacity (Orphan.machine k journal) := by
      rw [Orphan.machine, hadopter]
      exact Machine.run_keep (fun t h => h.turn hcast t) horphan _
    exact hrun.reported hv

/-- The main thread is blocked before the parent has started. -/
def eager : List Turn :=
  [.main, .main, .main] ++ (List.replicate 11 [.thread 0, .thread 1, .main]).flatten

/-- The adopter's own number is passed over. -/
theorem pairs_of_eager :
    ∃ k, Kernel.boot ⟨3, ⟨1⟩⟩ = .ok k ∧
      Zombie.report ((Machine.start k .starting #[]).follow (Zombie.program ⟨1⟩) eager) =
        .ok ⟨⟨0⟩, ⟨2⟩, [(⟨0⟩, 0), (⟨2⟩, 0)]⟩ ∧
      (zombie k #[]).report = .ok ⟨⟨0⟩, ⟨2⟩, [(⟨0⟩, 0), (⟨2⟩, 0)]⟩ ∧
      Orphan.report ((Machine.start k .starting #[]).follow (Orphan.program ⟨1⟩) eager) =
        .ok ⟨⟨0⟩, ⟨2⟩, some ⟨1⟩, [(⟨0⟩, 0), (⟨2⟩, 42)]⟩ ∧
      (orphan k #[]).report = .ok ⟨⟨0⟩, ⟨2⟩, some ⟨1⟩, [(⟨0⟩, 0), (⟨2⟩, 42)]⟩ := by
  have hthree : 3 ≤ (⟨3, ⟨1⟩⟩ : Config).capacity := by decide
  obtain ⟨k, hk, ⟨hzombie, hzombie'⟩, horphan, horphan'⟩ := pairs_of_boot hthree #[]
  have hk' : Kernel.boot ⟨3, ⟨1⟩⟩ = .ok _ := rfl
  obtain rfl := Except.ok.inj (hk.symm.trans hk')
  exact ⟨_, hk, (hzombie eager (by decide +kernel)).1, (hzombie' (by decide +kernel)).1,
    (horphan eager (by decide +kernel)).1, (horphan' (by decide +kernel)).1⟩

end Scenario

end Lifecycle
