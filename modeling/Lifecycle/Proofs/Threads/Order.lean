import Mathlib.Algebra.BigOperators.Group.List.Basic
import Mathlib.Algebra.Order.Group.Multiset
import Lifecycle.Proofs.Threads.Effects
/-!
# Order among threads

Every thread that is not gone stands on a slot of its own, which holds its process in the status
that the thread expects; the main thread stands on the adopter's slot. Turns keep this order: they
leave the slots of others at rest, and a thread that is started stands on the slot that its process
was put into. So no thread is ever refused a step on its own behalf, but a fork for want of room.
When the adopter has no children left there is no other process, and then all threads are gone.
-/

namespace Lifecycle

variable {σ μ ν : Type}

/-! ## Seats -/

/-- Threads stand on slots other than the adopter's, each on its own. -/
structure Seating (t : Table) (threads : List (Thread σ)) : Prop where
  seated : ∀ (i : Nat) (p : Pid) (ph : Phase σ), threads[i]? = some ⟨p, ph⟩ →
    ∃ j, j ≠ 0 ∧ ph.Stands t p j
  apart : ∀ (i i' : Nat) (p : Pid) (ph ph' : Phase σ), i ≠ i' → threads[i]? = some ⟨p, ph⟩ →
    threads[i']? = some ⟨p, ph'⟩ → ph = .gone ∨ ph' = .gone

namespace Seating

variable {t t' : Table} {threads started : List (Thread σ)} {i j : Nat} {p : Pid} {ph ph' : Phase σ}

theorem nil (t : Table) : Seating t ([] : List (Thread σ)) where
  seated i p ph h := by cases h
  apart i i' p ph ph' hne h := by cases h

theorem spares (h : Seating t threads) (hs : t.Spares t' 0) : Seating t' threads := by
  refine ⟨fun i p ph hi => ?_, h.apart⟩
  obtain ⟨j, hj, hstands⟩ := h.seated i p ph hi
  exact ⟨j, hj, hstands.rests hs hj⟩

/-- A thread goes on where it stands and leaves the slots of the others at rest. -/
theorem set (h : Seating t threads) (hi : threads[i]? = some ⟨p, ph⟩) (hne : ph ≠ .gone)
    (hj : j ≠ 0) (hp : (t.slotAt j).holds p = true) (hs : t.Spares t' j)
    (hph : ph'.Stands t' p j) : Seating t' (threads.set i ⟨p, ph'⟩) := by
  have hlt := (List.getElem?_eq_some_iff.mp hi).1
  have hself : ∀ {q ph₂}, (threads.set i ⟨p, ph'⟩)[i]? = some ⟨q, ph₂⟩ → p = q ∧ ph' = ph₂ := by
    intro q ph₂ hset
    rw [List.getElem?_set_self hlt] at hset
    exact ⟨congrArg Thread.pid (Option.some.inj hset), congrArg Thread.phase (Option.some.inj hset)⟩
  have hother : ∀ {m q ph₂}, i ≠ m → (threads.set i ⟨p, ph'⟩)[m]? = some ⟨q, ph₂⟩ →
      threads[m]? = some ⟨q, ph₂⟩ := by
    intro m q ph₂ him hset
    rwa [List.getElem?_set_ne him] at hset
  refine ⟨fun m q ph₂ hm => ?_, fun m m' q ph₁ ph₂ hmm hm hm' => ?_⟩
  · by_cases him : i = m
    · subst him
      obtain ⟨rfl, rfl⟩ := hself hm
      exact ⟨j, hj, hph⟩
    · have hm := hother him hm
      obtain ⟨j', hj', hstands⟩ := h.seated m q ph₂ hm
      refine ⟨j', hj', ?_⟩
      by_cases hjj : j' = j
      · -- on the same slot there would be the same process
        rcases hstands with hgone | ⟨hq, -⟩
        · exact .inl hgone
        · subst hjj
          obtain rfl := Option.some.inj ((Slot.holds_iff.mp hp).2.symm.trans (Slot.holds_iff.mp hq).2)
          exact .inl ((h.apart i m p ph ph₂ him hi hm).resolve_left hne)
      · exact hstands.rests hs hjj
  · by_cases him : i = m
    · subst him
      obtain ⟨rfl, rfl⟩ := hself hm
      exact .inr ((h.apart i m' p ph ph₂ hmm hi (hother hmm hm')).resolve_left hne)
    · by_cases him' : i = m'
      · subst him'
        obtain ⟨rfl, rfl⟩ := hself hm'
        exact .inl ((h.apart m i p ph₁ ph hmm (hother him hm) hi).resolve_right hne)
      · exact h.apart m m' q ph₁ ph₂ hmm (hother him hm) (hother him' hm')

/-- A thread that is started for a process that was born finds it ready. -/
theorem append (h : Seating t' threads) (ht : t.Sound)
    (hheld : ∀ (i : Nat) (p : Pid) (ph : Phase σ), threads[i]? = some ⟨p, ph⟩ →
      ph = .gone ∨ ∃ j, (t.slotAt j).holds p = true)
    (hstarted : started = [] ∨ ∃ q parent st, started = [⟨q, .starting st⟩] ∧ t.Gains q parent t') :
    Seating t' (threads ++ started) := by
  rcases hstarted with rfl | ⟨q, parent, st, rfl, hfresh, n, space, hfree, hn, hslot⟩
  · rw [List.append_nil]
    exact h
  · have hold : ∀ {m q' ph'}, (threads ++ [⟨q, .starting st⟩])[m]? = some ⟨q', ph'⟩ →
        threads[m]? = some ⟨q', ph'⟩ ∨ m = threads.length ∧ q = q' ∧ .starting st = ph' := by
      intro m q' ph' hm
      rcases Nat.lt_or_ge m threads.length with hlt | hge
      · rw [List.getElem?_append_left hlt] at hm
        exact .inl hm
      · rw [List.getElem?_append_right hge, List.getElem?_singleton] at hm
        split at hm
        · rename_i hzero
          exact .inr ⟨by omega, congrArg Thread.pid (Option.some.inj hm),
            congrArg Thread.phase (Option.some.inj hm)⟩
        · cases hm
    -- nobody speaks for an identity that is fresh
    have hnew : ∀ {m : Nat} {ph' : Phase σ}, threads[m]? = some ⟨q, ph'⟩ → ph' = .gone := by
      intro m ph' hm
      refine (hheld m q ph' hm).resolve_right ?_
      rintro ⟨j, hj⟩
      rw [hfresh.unheld j] at hj
      cases hj
    refine ⟨fun m q' ph' hm => ?_, fun m m' q' ph₁ ph₂ hmm hm hm' => ?_⟩
    · rcases hold hm with hm | ⟨-, rfl, rfl⟩
      · exact h.seated m q' ph' hm
      · have hn0 : n ≠ 0 := by
          rintro rfl
          rw [Slot.inUse_of_alive ht.adopter.alive] at hfree
          cases hfree
        refine ⟨n, hn0, .inr ?_⟩
        rw [hslot, if_pos rfl]
        exact ⟨Slot.holds_iff.mpr ⟨rfl, rfl⟩, rfl, rfl⟩
    · rcases hold hm with hm | ⟨hend, rfl, rfl⟩
      · rcases hold hm' with hm' | ⟨-, rfl, rfl⟩
        · exact h.apart m m' q' ph₁ ph₂ hmm hm hm'
        · exact .inl (hnew hm)
      · rcases hold hm' with hm' | ⟨hend', -, -⟩
        · exact .inr (hnew hm')
        · exact absurd (hend.trans hend'.symm) hmm

end Seating

theorem Phase.Stands.held {ph : Phase σ} {t : Table} {p : Pid} {j : Nat} (h : ph.Stands t p j) :
    ph = .gone ∨ ∃ j, (t.slotAt j).holds p = true := h.imp_right fun hp => ⟨j, hp.1⟩

/-- A turn of the thread of a process leaves the main thread with what it expects. -/
theorem MainPhase.Fits.spares {mp : MainPhase μ} {t t' : Table} {j : Nat}
    (h : mp.Fits t) (ht : t.Sound) (hj : j ≠ 0) (hu : (t.slotAt j).inUse = true)
    (hs : t.Spares t' j) (ha : t'.adopter = t.adopter) : mp.Fits t' := by
  have hself := hs 0 hj.symm ht.adopter.alive
  have hbusy : ¬t.Alone := fun halone => by
    rw [halone j hj] at hu
    cases hu
  cases mp with
  | directing st | collecting reaped =>
    exact ⟨(hself.status h.2).trans h.1, hself.waiters.trans h.2⟩
  | blocked reaped w => exact ⟨h.1.trans (by rw [ha]), hself.waiters.trans h.2⟩
  | joining reaped => exact absurd h hbusy
  | ended verdict =>
    cases verdict with
    | ok reaped => exact absurd h hbusy
    | error failure => exact h

/-! ## Orderly machines -/

namespace Machine

variable {prog : Program σ μ ν} {m m' : Machine σ μ ν} {i : Nat} {p : Pid} {ph ph' : Phase σ}
  {threads started : List (Thread σ)} {notes : List ν} {k' : Kernel} {main' : MainPhase μ}

/-- The callers that threads have blocked. -/
def parked (threads : List (Thread σ)) : Multiset Waiter := (threads.map (·.phase.callers)).sum

/-- The kernel of a machine, with the callers blocked in it. -/
def scene (m : Machine σ μ ν) : Scene := ⟨m.kernel, m.main.callers + parked m.threads, []⟩

theorem sum_map_set {α M : Type} [AddCommMonoid M] {l : List α} {i : Nat} (hi : i < l.length)
    (f : α → M) (a : α) : ((l.set i a).map f).sum = f a + ((l.eraseIdx i).map f).sum := by
  rw [((List.set_perm_cons_eraseIdx hi a).map f).sum_eq, List.map_cons, List.sum_cons]

theorem sum_map_eraseIdx {α M : Type} [AddCommMonoid M] {l : List α} {i : Nat} {a : α}
    (hi : l[i]? = some a) (f : α → M) : (l.map f).sum = f a + ((l.eraseIdx i).map f).sum := by
  obtain ⟨hlt, hget⟩ := List.getElem?_eq_some_iff.mp hi
  rw [← sum_map_set hlt f a, ← hget, List.set_getElem_self]

theorem parked_append (hs : ∀ t ∈ started, t.phase.callers = 0) :
    parked (threads ++ started) = parked threads := by
  have hzero : parked started = 0 := List.sum_eq_zero fun c hc => by
    obtain ⟨t, ht, rfl⟩ := List.mem_map.mp hc
    exact hs t ht
  rw [parked, List.map_append, List.sum_append]
  show parked threads + parked started = parked threads
  rw [hzero, add_zero]

/-- The threads that an effect starts have nobody blocked. -/
theorem parked_effect {k k' : Kernel} {others mine mine' : Multiset Waiter} {j : Nat}
    {d : Option Deed} (he : Program.Effect k others mine j d k' mine' started)
    (threads : List (Thread σ)) : parked (threads ++ started) = parked threads := by
  refine parked_append fun t ht => ?_
  rcases he.started with rfl | ⟨q, parent, st, rfl, -⟩
  · cases ht
  · rw [List.mem_singleton.mp ht]
    rfl

/-- The scene is sound, every process has an address space, and every thread finds what it expects.
-/
structure Orderly (m : Machine σ μ ν) : Prop where
  sound : m.scene.Sound
  housed : ∀ i, (m.kernel.table.slotAt i).Housed
  seating : Seating m.kernel.table m.threads
  main : m.main.Fits m.kernel.table

namespace Orderly

theorem start {config : Config} {k : Kernel} (hk : Kernel.boot config = .ok k) (st : μ)
    (journal : Journal) : Orderly (Machine.start k st journal : Machine σ μ ν) := by
  obtain ⟨ht, -⟩ := Kernel.boot_eq_ok hk
  obtain ⟨-, -, -, -, h0, -⟩ := Table.boot_eq_ok ht
  have hsound : Scene.Sound ⟨k, 0, []⟩ := (Session.Reachable.boot hk).sound
  refine ⟨?_, Table.housed_boot ht, .nil _, ?_⟩
  · show Scene.Sound ⟨k, 0 + parked [], []⟩
    rw [zero_add]
    exact hsound
  · show (k.table.slotAt 0).status = .running ∧ (k.table.slotAt 0).waiters = 0
    rw [h0]
    exact ⟨rfl, rfl⟩

theorem presides (h : Orderly m) : Presides m.kernel (parked m.threads) m.main :=
  ⟨h.sound, h.housed, h.main⟩

/-- When the main thread is done waiting, the table passes the audit. -/
theorem concludes (h : Orderly m) (reaped : List (Pid × ExitCode)) (hm : m.main = .joining reaped) :
    conclude m.kernel reaped = .ok reaped := by
  have hpresides := h.presides
  rw [hm] at hpresides
  exact hpresides.conclude_eq

theorem scene_eq (hi : m.threads[i]? = some ⟨p, ph⟩) : m.scene =
    ⟨m.kernel, ph.callers + (m.main.callers + parked (m.threads.eraseIdx i)), []⟩ := by
  rw [scene, parked, sum_map_eraseIdx hi, add_left_comm]
  rfl

theorem seat (h : Orderly m) (hi : m.threads[i]? = some ⟨p, ph⟩) (hne : ph ≠ .gone) :
    ∃ j, Seated m.kernel (m.main.callers + parked (m.threads.eraseIdx i)) p j ph := by
  obtain ⟨j, hj, hstands⟩ := h.seating.seated i p ph hi
  obtain ⟨hp, hfits⟩ := hstands.resolve_left hne
  have hsound := h.sound
  rw [scene_eq hi] at hsound
  exact ⟨j, hsound, h.housed, hj, hp, hfits⟩

/-- A thread that has a turn goes on in good order. -/
theorem stepThread (h : Orderly m) (hg : prog.Gentle) (hi : m.threads[i]? = some ⟨p, ph⟩)
    (hm : m.stepThread prog i = some m') :
    p ≠ m.kernel.table.adopter ∧ ∃ k' ph' started notes,
      prog.Acts m.kernel p ph (prog.deed? m.kernel p ph) k' ph' started notes ∧
      m.Goes m' k' m.main ((m.threads ++ started).set i ⟨p, ph'⟩) notes ∧ Orderly m' ∧
      Scene.Moves m.scene (prog.deed? m.kernel p ph).toList m'.scene := by
  have hne : ph ≠ .gone := by
    rintro rfl
    unfold Machine.stepThread at hm
    rw [hi] at hm
    cases hm
  obtain ⟨j, hseat⟩ := h.seat hi hne
  obtain ⟨k', ph', started, notes, hacts, hgoes⟩ := hseat.step hg hi hm
  obtain ⟨heffect, hstands⟩ := hseat.effect hg hacts
  have hlt := (List.getElem?_eq_some_iff.mp hi).1
  have hthreads : (m.threads ++ started).set i ⟨p, ph'⟩ = m.threads.set i ⟨p, ph'⟩ ++ started :=
    List.set_append_left i ⟨p, ph'⟩ hlt
  have hscene : m'.scene =
      ⟨k', ph'.callers + (m.main.callers + parked (m.threads.eraseIdx i)), []⟩ := by
    rw [scene, hgoes.kernel, hgoes.main, hgoes.threads, hthreads, parked_effect heffect, parked,
      sum_map_set hlt, add_left_comm]
    rfl
  have hmoves := heffect.moves
  rw [← scene_eq hi, ← hscene] at hmoves
  have hsound := h.sound.moves hmoves
  have hfixed : k'.table.adopter = m.kernel.table.adopter := by
    have hadopter := hmoves.keep (P := fun x => x.table.adopter = m.kernel.table.adopter)
      (fun hx hmove => hmove.fixed.2.trans hx) rfl
    rwa [hscene] at hadopter
  refine ⟨hseat.ne_adopter, k', ph', started, notes, hacts, hgoes, ⟨hsound, ?_, ?_, ?_⟩, hmoves⟩
  · rw [hgoes.kernel]
    exact heffect.housed
  · rw [hgoes.kernel, hgoes.threads, hthreads]
    refine (h.seating.set hi hne hseat.other hseat.holds heffect.spares hstands).append
      h.sound.table ?_ heffect.started
    intro i' p' ph₂ hi'
    by_cases hii : i = i'
    · rw [← hii, List.getElem?_set_self hlt] at hi'
      obtain rfl : p = p' := congrArg Thread.pid (Option.some.inj hi')
      exact .inr ⟨j, hseat.holds⟩
    · rw [List.getElem?_set_ne hii] at hi'
      obtain ⟨j', -, hstands'⟩ := h.seating.seated i' p' ph₂ hi'
      exact hstands'.held
  · rw [hgoes.kernel, hgoes.main]
    exact h.main.spares h.sound.table hseat.other (Slot.holds_iff.mp hseat.holds).1 heffect.spares
      hfixed

/-- The main thread goes on in good order. -/
theorem stepMain (h : Orderly m) (hg : prog.Gentle) (hm : m.stepMain prog = some m') :
    ∃ k' main' started notes,
      prog.Leads m.kernel (∀ t ∈ m.threads, t.isGone = true) m.main
        (prog.mainDeed? m.kernel m.main) k' main' started notes ∧
      m.Goes m' k' main' (m.threads ++ started) notes ∧ Orderly m' ∧
      Scene.Moves m.scene (prog.mainDeed? m.kernel m.main).toList m'.scene := by
  obtain ⟨k', main', started, notes, hleads, hgoes⟩ := h.presides.step hg hm
  obtain ⟨heffect, hfits⟩ := h.presides.effect hg hleads
  have hscene : m'.scene = ⟨k', main'.callers + parked m.threads, []⟩ := by
    rw [scene, hgoes.kernel, hgoes.main, hgoes.threads, parked_effect heffect]
  have hmoves := heffect.moves
  rw [← hscene] at hmoves
  refine ⟨k', main', started, notes, hleads, hgoes, ⟨h.sound.moves hmoves, ?_, ?_, ?_⟩, hmoves⟩
  · rw [hgoes.kernel]
    exact heffect.housed
  · rw [hgoes.kernel, hgoes.threads]
    refine (h.seating.spares heffect.spares).append h.sound.table ?_ heffect.started
    intro i p ph hi
    obtain ⟨j, -, hstands⟩ := h.seating.seated i p ph hi
    exact hstands.held
  · rw [hgoes.kernel, hgoes.main]
    exact hfits

end Orderly

end Machine

end Lifecycle
