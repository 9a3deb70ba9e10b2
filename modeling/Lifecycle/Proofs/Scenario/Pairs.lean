import Lifecycle.Proofs.Threads.Tableaux
/-!
# A parent and its child, left to the adopter

The adopter is the parent of the first process from the start, and of its child once the first process
has ended. Whatever has become of the child by then, its parent has ended too and stands in the lower
slot, so the adopter collects the parent first. When it has collected both, no child is left, and the
run can only come to its end.
-/

namespace Lifecycle

namespace Scenario

open Machine

variable {σ μ ν : Type} {prog : Program σ μ ν} {m : Machine σ μ ν} {a p c : Pid} {n i : Nat}
  {threads : List (Thread σ)} {notes : List ν} {l : List Tenancy} {e e' : Tenancy}
  {reaped : List (Pid × ExitCode)} {code : ExitCode}

/-- What is reported, and that nobody is left but the adopter. -/
def Settled {ρ : Type} (adopter : Pid) (k : Kernel) (reported : Except Failure ρ) (r : ρ) : Prop :=
  reported = .ok r ∧ ∀ i p, (k.table.slotAt i).holds p = true ↔ i = 0 ∧ p = adopter

/-- The parent and the child are the first two processes of a table that has room for them. -/
structure Cast (a p c : Pid) (n : Nat) : Prop where
  parent : p = PidPool.nth a 0
  child : c = PidPool.nth a 1
  room : 3 ≤ n

namespace Cast

theorem parent_ne (h : Cast a p c n) : p ≠ a := by
  rw [h.parent]
  exact PidPool.nth_ne a 0

theorem child_ne (h : Cast a p c n) : c ≠ a := by
  rw [h.child]
  exact PidPool.nth_ne a 1

theorem apart (h : Cast a p c n) : c ≠ p := by
  rw [h.parent, h.child]
  exact fun heq => absurd (PidPool.nth_inj heq) (by decide)

/-- What becomes of the tenancies when the child ends before its parent, and when the parent ends. -/
theorem ended_child (h : Cast a p c n) (code : ExitCode) :
    [Tenancy.live p a, .live c p].map (·.ended a c code) = [.live p a, .dead c p code] := by
  rw [List.map_cons, List.map_singleton, Tenancy.live_ended_other h.apart.symm h.child_ne.symm,
    Tenancy.live_ended_self]

theorem ended_parent (h : Cast a p c n) (code : ExitCode) :
    [Tenancy.live p a, .live c p].map (·.ended a p code) = [.dead p a code, .live c a] := by
  rw [List.map_cons, List.map_singleton, Tenancy.live_ended_self, Tenancy.live_ended_parent h.apart]

theorem ended_bereft (h : Cast a p c n) (code last : ExitCode) :
    [Tenancy.live p a, .dead c p code].map (·.ended a p last) = [.dead p a last, .dead c a code] := by
  rw [List.map_cons, List.map_singleton, Tenancy.live_ended_self, Tenancy.dead_ended_parent h.apart]

end Cast

/-- A thread that takes its first step, or its second one. -/
inductive Begins (b : σ) : Phase σ → Prop
  | starting : Begins b (.starting b)
  | active : Begins b (.active b)

/-- What has become of a parent that ended with 0: it is there still, or it was collected first. -/
inductive Elder (a p : Pid) : List (Pid × ExitCode) → Tenancy → Prop
  | present : Elder a p [] (.dead p a 0)
  | collected : Elder a p [(p, 0)] .vacant

theorem Elder.ended_child (h : Elder a p reaped e) (hcast : Cast a p c n) (code : ExitCode) :
    [e, Tenancy.live c a].map (·.ended a c code) = [e, .dead c a code] := by
  have hself : e.ended a c code = e := by
    cases h with
    | present => exact Tenancy.dead_ended_other hcast.apart.symm hcast.child_ne.symm a code
    | collected => exact Tenancy.vacant_ended a c code
  rw [List.map_cons, List.map_singleton, hself, Tenancy.live_ended_self]

/-- While the adopter has a child that lives and none that has ended, it goes on waiting. -/
theorem awaits_live (h : Tableau a n m threads notes l) (hg : prog.Gentle)
    (hm : prog.Awaits m.main reaped) (hp : .live p a ∈ l) (hnone : ∀ q code, .dead q a code ∉ l) :
    prog.Awaits (m.turn prog .main).main reaped ∧
      Tableau a n (m.turn prog .main) threads notes l := by
  rcases h.awaits hg hm with hstays | ⟨i, q, code, hfirst, -⟩ | ⟨-, -, hchildless⟩
  · exact hstays
  · exact absurd (List.mem_of_getElem? hfirst.here) (hnone q code)
  · exact absurd rfl (hchildless _ hp)

/-- With a parent that has ended and a child that was handed over, the adopter collects the parent
first, and the child at most after that. -/
theorem awaits_elder (h : Tableau a n m threads notes [e, e']) (hg : prog.Gentle)
    (hm : prog.Awaits m.main reaped) (he : Elder a p reaped e) (hparent : e'.parent = some a) :
    (∃ reaped e, prog.Awaits (m.turn prog .main).main reaped ∧ Elder a p reaped e ∧
        Tableau a n (m.turn prog .main) threads notes [e, e']) ∨
      ∃ q code, e' = .dead q a code ∧
        prog.Awaits (m.turn prog .main).main [(p, 0), (q, code)] ∧
        Tableau a n (m.turn prog .main) threads notes [.vacant, .vacant] := by
  rcases h.awaits hg hm with ⟨hawaits, ht⟩ | ⟨i, q, code, hfirst, hawaits, ht⟩ | ⟨-, -, hchildless⟩
  · exact .inl ⟨_, e, hawaits, he, ht⟩
  · have hhere := hfirst.here
    match i with
    | 0 =>
      cases he with
      | present =>
        obtain ⟨rfl, rfl⟩ : p = q ∧ 0 = code := by
          cases hhere
          exact ⟨rfl, rfl⟩
        exact .inl ⟨_, _, hawaits, .collected, ht⟩
      | collected => cases hhere
    | 1 =>
      cases he with
      | present => exact absurd rfl (hfirst.none_before 0 Nat.one_pos p 0)
      | collected => exact .inr ⟨q, code, Option.some.inj hhere, hawaits, ht⟩
    | i + 2 => cases hhere
  · exact absurd hparent (hchildless _ (List.mem_cons_of_mem _ (List.mem_singleton_self e')))

/-! ## The beginning of a run -/

/-- The main thread starts a parent from one of its states, or has started it, and the parent is about
to do what it does first. -/
inductive Opening (prog : Program σ μ ν) (a p : Pid) (st : μ) (b : σ) (n : Nat)
    (m : Machine σ μ ν) : Prop
  | directing (main : m.main = .directing st) (tableau : Tableau a n m [] [] [])
  | begun {ph : Phase σ} (awaits : prog.Awaits m.main []) (begins : Begins b ph)
      (tableau : Tableau a n m [⟨p, ph⟩] (prog.heed st (.ok (.pid p))).2 [.live p a])

namespace Opening

variable {st : μ} {b child : σ}

/-- If the parent forks first and the main thread starts nobody else, the run goes on with the child
next to its parent. -/
theorem turn (h : Opening prog a p st b n m) (hcast : Cast a p c n) (hg : prog.Gentle)
    (hu : prog.Unwaiting) (hspawns : prog.lead st = .spawn a b)
    (hfinishes : prog.lead (prog.heed st (.ok (.pid p))).1 = .finish)
    (hforks : prog.move p b = .ask (.fork child)) (t : Turn) :
    Opening prog a p st b n (m.turn prog t) ∨
      prog.Awaits (m.turn prog t).main [] ∧
        Tableau a n (m.turn prog t)
          [⟨p, .active (prog.hear p b (.ok (.pid c))).1⟩, ⟨c, .starting child⟩]
          ((prog.heed st (.ok (.pid p))).2 ++ (prog.hear p b (.ok (.pid c))).2)
          [.live p a, .live c p] := by
  cases h with
  | directing main tableau =>
    cases t with
    | main =>
      obtain ⟨hmain, ht⟩ := tableau.spawn hg main hspawns (fun _ hmem => nomatch hmem)
        (Nat.lt_of_lt_of_le (by decide) hcast.room)
      obtain rfl := hcast.parent
      exact .inl (.begun (by rw [hmain]; exact .directing hfinishes) .starting ht)
    | thread i =>
      rw [tableau.still fun q ph hi => nomatch hi]
      exact .inl (.directing main tableau)
  | begun awaits begins tableau =>
    match t with
    | .main =>
      obtain ⟨hawaits, ht⟩ := awaits_live tableau hg awaits (List.mem_singleton_self _)
        (fun q code hmem => nomatch List.mem_singleton.mp hmem)
      exact .inl (.begun hawaits begins ht)
    | .thread 0 =>
      cases begins with
      | starting =>
        obtain ⟨hmain, ht⟩ := tableau.shift hg hu (i := 0) rfl .start
        exact .inl (.begun (hmain ▸ awaits) .active ht)
      | active =>
        obtain ⟨hmain, ht⟩ := tableau.fork hg hu (i := 0) rfl hforks
          (fun tenancy hmem => by rw [List.mem_singleton.mp hmem]; nofun) hcast.room
        obtain rfl := hcast.child
        exact .inr ⟨hmain ▸ awaits, ht⟩
    | .thread (i + 1) =>
      rw [tableau.still fun q ph hi => by cases hi]
      exact .inl (.begun awaits begins tableau)

theorem not_ended (h : Opening prog a p st b n m) (verdict : Verdict) :
    m.main ≠ .ended verdict := by
  intro hm
  cases h with
  | directing main _ =>
    rw [hm] at main
    cases main
  | begun awaits _ _ =>
    rw [hm] at awaits
    cases awaits

end Opening

/-! ## The end of a run -/

/-- A parent and its child have both ended, and the adopter collects them or has collected them. -/
inductive Closing (prog : Program σ μ ν) (a p c : Pid) (code : ExitCode) (n : Nat)
    (m : Machine σ μ ν) (threads : List (Thread σ)) (notes : List ν) : Prop
  | owed {reaped : List (Pid × ExitCode)} {e : Tenancy} (awaits : prog.Awaits m.main reaped)
      (elder : Elder a p reaped e) (tableau : Tableau a n m threads notes [e, .dead c a code])
  | paid (awaits : prog.Awaits m.main [(p, 0), (c, code)])
      (tableau : Tableau a n m threads notes [.vacant, .vacant])
  | concluding
      (main : m.main = .joining [(p, 0), (c, code)] ∨ m.main = .ended (.ok [(p, 0), (c, code)]))
      (tableau : Tableau a n m threads notes [.vacant, .vacant])

namespace Closing

theorem tableau? (h : Closing prog a p c code n m threads notes) :
    ∃ l, Tableau a n m threads notes l := by
  cases h with
  | owed _ _ tableau | paid _ tableau | concluding _ tableau => exact ⟨_, tableau⟩

theorem turn (h : Closing prog a p c code n m threads notes) (hg : prog.Gentle)
    (hgone : ∀ t ∈ threads, t.phase = .gone) (t : Turn) :
    Closing prog a p c code n (m.turn prog t) threads notes := by
  cases t with
  | thread i =>
    obtain ⟨l, htableau⟩ := h.tableau?
    rw [htableau.still fun q ph hi => hgone ⟨q, ph⟩ (List.mem_of_getElem? hi)]
    exact h
  | main =>
    cases h with
    | owed awaits elder tableau =>
      rcases awaits_elder tableau hg awaits elder rfl with
        ⟨reaped, e, hawaits, helder, ht⟩ | ⟨q, code, heq, hawaits, ht⟩
      · exact .owed hawaits helder ht
      · cases heq
        exact .paid hawaits ht
    | paid awaits tableau =>
      rcases tableau.awaits hg awaits with ⟨hawaits, ht⟩ | ⟨i, q, code, hfirst, -⟩ | ⟨hjoins, ht, -⟩
      · exact .paid hawaits ht
      · have hmem := List.mem_of_getElem? hfirst.here
        simp [Tenancy.dead, Tenancy.vacant] at hmem
      · exact .concluding (.inl hjoins) ht
    | concluding main tableau =>
      obtain ⟨hmain, ht⟩ := tableau.joins hg main
      exact .concluding hmain ht

/-- A run that is over has yielded the parent and then the child, and only the adopter is left. -/
theorem ended (h : Closing prog a p c code n m threads notes) {verdict : Verdict}
    (hv : m.verdict? = some verdict) : m.verdict = .ok [(p, 0), (c, code)] ∧
      ∀ i q, (m.kernel.table.slotAt i).holds q = true ↔ i = 0 ∧ q = a := by
  have hmain := ended_of_verdict? hv
  rw [Machine.verdict, hv]
  cases h with
  | owed awaits _ _ | paid awaits _ =>
    rw [hmain] at awaits
    cases awaits
  | concluding main tableau =>
    obtain rfl : verdict = .ok [(p, 0), (c, code)] := by
      rw [hmain] at main
      rcases main with hjoins | hended
      · cases hjoins
      · exact MainPhase.ended.inj hended
    refine ⟨rfl, fun i q => ?_⟩
    rw [← tableau.adopter]
    exact tableau.sound.table.holds_iff_of_alone (tableau.alone hmain)

end Closing

end Scenario

end Lifecycle
