import Lifecycle.Proofs.Threads.Rosters
/-!
# Tableaux

Where no body waits for children, a machine is told by its threads, its notes, its roster and its main
thread. Each turn changes such a tableau in one of a few ways: a thread goes on where it stands, a
body hears an answer, a child is added at the end, or a thread is gone and the children of its
process are handed over. A run is then followed from tableau to tableau.
-/

namespace Lifecycle

namespace Machine

variable {σ μ ν : Type} {prog : Program σ μ ν} {m : Machine σ μ ν} {a p : Pid} {n i : Nat}
  {threads : List (Thread σ)} {notes : List ν} {l : List Tenancy} {ph ph' : Phase σ} {st : σ}
  {reaped : List (Pid × ExitCode)}

/-- An orderly machine in which nobody is blocked but the main thread, with its threads, notes and
roster. The identities went up while there is no gap in the roster. -/
structure Tableau (a : Pid) (n : Nat) (m : Machine σ μ ν) (threads : List (Thread σ))
    (notes : List ν) (l : List Tenancy) : Prop extends Orderly m where
  adopter : m.kernel.table.adopter = a
  capacity : m.kernel.table.capacity = n
  unblocked : ∀ t ∈ m.threads, t.phase.callers = 0
  threads_eq : m.threads = threads
  notes_eq : m.notes.toList = notes
  roster : m.kernel.table.Roster l
  pool : (∀ tenancy ∈ l, tenancy ≠ .vacant) → m.kernel.table.pool = .dealt a l.length

namespace Tableau

theorem start {config : Config} {k : Kernel} (hk : Kernel.boot config = .ok k) (st : μ)
    (journal : Journal) :
    Tableau config.adopter config.capacity (Machine.start k st journal : Machine σ μ ν) [] [] [] := by
  have hboot := (Kernel.boot_eq_ok hk).1
  obtain ⟨-, hcapacity, hadopter, hpool, -⟩ := Table.boot_eq_ok hboot
  exact ⟨.start hk st journal, hadopter, hcapacity, (fun t ht => nomatch ht), rfl, rfl,
    .boot hboot, fun _ => hpool⟩

theorem parked_eq (h : Tableau a n m threads notes l) : parked m.threads = 0 := by
  refine List.sum_eq_zero fun c hc => ?_
  obtain ⟨t, ht, rfl⟩ := List.mem_map.mp hc
  exact h.unblocked t ht

/-- Past the roster there is room. -/
theorem room (h : Tableau a n m threads notes l) (hl : l.length + 1 < n) :
    m.kernel.table.freeSlot? ≠ none := by
  obtain ⟨i, hi⟩ := h.roster.room h.sound.table (h.capacity ▸ hl)
  rw [hi]
  nofun

/-- The identity that is handed out next, and the pool after that. -/
theorem dealt (h : Tableau a n m threads notes l) (hl : ∀ tenancy ∈ l, tenancy ≠ .vacant) {q : Pid}
    {pool : PidPool} (hq : q = m.scene.table.pool.issue.1)
    (hpool : pool = m.scene.table.pool.issue.2) :
    q = PidPool.nth a l.length ∧ pool = .dealt a (l.length + 1) := by
  have hissue : m.scene.table.pool.issue = (PidPool.nth a l.length, .dealt a (l.length + 1)) := by
    rw [show m.scene.table.pool = .dealt a l.length from h.pool hl, PidPool.issue_dealt]
  rw [hq, hpool, hissue]
  exact ⟨rfl, rfl⟩

/-! ## Turns of threads -/

/-- A thread that is not blocked and not gone can move. -/
theorem stepThread_ne_none (hi : m.threads[i]? = some ⟨p, ph⟩) (hfree : ph.callers = 0)
    (hne : ph ≠ .gone) : m.stepThread prog i ≠ none := by
  unfold stepThread
  rw [hi]
  cases ph with
  | starting st | active st =>
    dsimp only
    split <;> nofun
  | napping st | pausing st => nofun
  | blocked st w => exact absurd hfree (Multiset.singleton_ne_zero w)
  | gone => exact absurd rfl hne

/-- A thread that is there and is not gone acts in its turn. -/
theorem acts (h : Tableau a n m threads notes l) (hg : prog.Gentle) (hu : prog.Unwaiting)
    (hi : threads[i]? = some ⟨p, ph⟩) (hne : ph ≠ .gone) :
    ∃ others j d k' ph' started told, Seated m.kernel others p j ph ∧
      prog.Acts m.kernel p ph d k' ph' started told ∧
      Scene.Moves m.scene d.toList (m.turn prog (.thread i)).scene ∧
      (m.turn prog (.thread i)).kernel = k' ∧ (m.turn prog (.thread i)).main = m.main ∧
      ∀ l', (m.turn prog (.thread i)).kernel.table.Roster l' →
        ((∀ tenancy ∈ l', tenancy ≠ .vacant) →
          (m.turn prog (.thread i)).kernel.table.pool = .dealt a l'.length) →
        Tableau a n (m.turn prog (.thread i)) ((threads ++ started).set i ⟨p, ph'⟩) (notes ++ told)
          l' := by
  have hthread : m.threads[i]? = some ⟨p, ph⟩ := h.threads_eq ▸ hi
  have hfree : ph.callers = 0 := h.unblocked _ (List.mem_of_getElem? hthread)
  obtain ⟨htakes, horderly, hmoves⟩ := h.takes hg (.thread i)
  have hadopter := hmoves.adopter
  have hcapacity := hmoves.capacity
  generalize m.turn prog (.thread i) = m' at htakes horderly hmoves hadopter hcapacity ⊢
  cases htakes with
  | pass stuck idle stays => exact absurd stuck (stepThread_ne_none hthread hfree hne)
  | @act _ q phase ph' k' started told _ thread other acts goes =>
    rw [hthread] at thread
    obtain ⟨rfl, rfl⟩ := Thread.mk.inj (Option.some.inj thread)
    obtain ⟨j, hseat⟩ := h.seat hthread hne
    obtain ⟨hfree', hstarted⟩ := acts.callers hu hfree
    refine ⟨_, j, _, k', ph', started, told, hseat, acts, hmoves, goes.kernel, goes.main,
      fun l' hroster hpool => ⟨horderly, hadopter.trans h.adopter, hcapacity.trans h.capacity, ?_,
        ?_, ?_, hroster, hpool⟩⟩
    · rw [goes.threads]
      intro t ht
      rcases List.mem_or_eq_of_mem_set ht with hmem | rfl
      · exact (List.mem_append.mp hmem).elim (h.unblocked t) (hstarted t)
      · exact hfree'
    · rw [goes.threads, h.threads_eq]
    · rw [goes.notes, h.notes_eq]

/-- A turn without a deed changes neither the roster nor the identities. -/
theorem keeps_roster (h : Tableau a n m threads notes l) {m' : Machine σ μ ν}
    (hmoves : Scene.Moves m.scene [] m'.scene) : m'.kernel.table.Roster l ∧
      ((∀ tenancy ∈ l, tenancy ≠ .vacant) → m'.kernel.table.pool = .dealt a l.length) :=
  ⟨hmoves.roster h.roster, fun hl => hmoves.tenancies.1.trans (h.pool hl)⟩

/-- A thread whose turn can only take it to one phase, without a deed, gets there. -/
theorem goes (h : Tableau a n m threads notes l) (hg : prog.Gentle) (hu : prog.Unwaiting)
    {told : List ν} (hi : threads[i]? = some ⟨p, ph⟩) (hne : ph ≠ .gone)
    (honly : ∀ {d k' ph₁ started told₁}, prog.Acts m.kernel p ph d k' ph₁ started told₁ →
      d = none ∧ ph₁ = ph' ∧ started = [] ∧ told₁ = told) :
    (m.turn prog (.thread i)).main = m.main ∧
      Tableau a n (m.turn prog (.thread i)) (threads.set i ⟨p, ph'⟩) (notes ++ told) l := by
  obtain ⟨others, j, d, k', ph₁, started, told₁, -, hacts, hmoves, -, hmain, htableau⟩ :=
    h.acts hg hu hi hne
  obtain ⟨rfl, rfl, rfl, rfl⟩ := honly hacts
  obtain ⟨hroster, hpool⟩ := h.keeps_roster hmoves
  rw [List.append_nil] at htableau
  exact ⟨hmain, htableau l hroster hpool⟩

theorem shift (h : Tableau a n m threads notes l) (hg : prog.Gentle) (hu : prog.Unwaiting)
    {next : Status} (hi : threads[i]? = some ⟨p, ph⟩) (hs : prog.Shifts p ph next ph') :
    (m.turn prog (.thread i)).main = m.main ∧
      Tableau a n (m.turn prog (.thread i)) (threads.set i ⟨p, ph'⟩) notes l := by
  have hgoes := h.goes hg hu hi (by cases hs <;> nofun) hs.acts
  rwa [List.append_nil] at hgoes

theorem awake (h : Tableau a n m threads notes l) (hg : prog.Gentle) (hu : prog.Unwaiting)
    (hi : threads[i]? = some ⟨p, .pausing st⟩) :
    (m.turn prog (.thread i)).main = m.main ∧
      Tableau a n (m.turn prog (.thread i))
        (threads.set i ⟨p, .active (prog.hear p st (.ok .done)).1⟩)
        (notes ++ (prog.hear p st (.ok .done)).2) l :=
  h.goes hg hu hi nofun fun hacts => hacts.of_pausing

theorem served (h : Tableau a n m threads notes l) (hg : prog.Gentle) (hu : prog.Unwaiting)
    {r : Request} {answer : Answer} (hi : threads[i]? = some ⟨p, .active st⟩)
    (hasks : prog.move p st = .ask (.call r)) (hr : (m.kernel.serve r).result = .ok answer) :
    (m.turn prog (.thread i)).main = m.main ∧
      Tableau a n (m.turn prog (.thread i))
        (threads.set i ⟨p, .active (prog.hear p st (.ok answer)).1⟩)
        (notes ++ (prog.hear p st (.ok answer)).2) l :=
  h.goes hg hu hi nofun fun hacts => hacts.of_served hasks hr

/-- While there is room, a child that is forked gets the next identity and comes last. -/
theorem fork (h : Tableau a n m threads notes l) (hg : prog.Gentle) (hu : prog.Unwaiting)
    {child : σ} (hi : threads[i]? = some ⟨p, .active st⟩)
    (hasks : prog.move p st = .ask (.fork child)) (hl : ∀ tenancy ∈ l, tenancy ≠ .vacant)
    (hroom : l.length + 1 < n) :
    let q := PidPool.nth a l.length
    (m.turn prog (.thread i)).main = m.main ∧
      Tableau a n (m.turn prog (.thread i))
        (threads.set i ⟨p, .active (prog.hear p st (.ok (.pid q))).1⟩ ++ [⟨q, .starting child⟩])
        (notes ++ (prog.hear p st (.ok (.pid q))).2) (l ++ [.live q p]) := by
  obtain ⟨others, j, d, k', ph₁, started, told, hseat, hacts, hmoves, rfl, hmain, htableau⟩ :=
    h.acts hg hu hi nofun
  obtain ⟨q, rfl, hgains, rfl, rfl, rfl⟩ := hacts.of_fork hseat hasks (h.room hroom)
  obtain ⟨hq, hpool, hroster⟩ := hmoves.roster_born h.sound h.roster hl hgains
  obtain ⟨rfl, hpool⟩ := h.dealt hl hq hpool
  rw [List.set_append_left _ _ (List.getElem?_eq_some_iff.mp hi).1] at htableau
  refine ⟨hmain, htableau _ hroster fun _ => ?_⟩
  rw [List.length_append]
  exact hpool

/-- The children of a process that ends are handed over. -/
theorem finish (h : Tableau a n m threads notes l) (hg : prog.Gentle) (hu : prog.Unwaiting)
    {code : ExitCode} (hi : threads[i]? = some ⟨p, .active st⟩)
    (hr : prog.returns? p st = some code) :
    (m.turn prog (.thread i)).main = m.main ∧
      Tableau a n (m.turn prog (.thread i)) (threads.set i ⟨p, .gone⟩) notes
        (l.map (·.ended a p code)) := by
  obtain ⟨others, j, d, k', ph₁, started, told, hseat, hacts, hmoves, hkernel, hmain, htableau⟩ :=
    h.acts hg hu hi nofun
  obtain ⟨rfl, rfl, rfl, rfl⟩ := hacts.of_returns hr
  have hroster := hmoves.roster_ended h.sound h.roster
  have hadopter : m.scene.table.adopter = a := h.adopter
  rw [hadopter] at hroster
  refine ⟨hmain, ?_⟩
  have hpool : (∀ tenancy ∈ l.map (·.ended a p code), tenancy ≠ .vacant) →
      (m.turn prog (.thread i)).kernel.table.pool = .dealt a (l.map (·.ended a p code)).length := by
    intro hl
    rw [List.length_map]
    refine (hmoves.tenancies_ended h.sound).1.trans (h.pool fun tenancy hmem hvacant => ?_)
    refine hl _ (List.mem_map_of_mem hmem) ?_
    rw [hvacant, Tenancy.vacant_ended]
  simpa only [List.append_nil] using htableau _ hroster hpool

/-- A thread that is not there or is gone cannot move. -/
theorem still (h : Tableau a n m threads notes l)
    (hi : ∀ p ph, threads[i]? = some ⟨p, ph⟩ → ph = .gone) : m.turn prog (.thread i) = m := by
  have hstuck : m.stepThread prog i = none := by
    unfold stepThread
    cases hthread : m.threads[i]? with
    | none => rfl
    | some t =>
      obtain ⟨p, ph⟩ := t
      obtain rfl := hi p ph (h.threads_eq ▸ hthread)
      rfl
  show (m.stepThread prog i).getD m = m
  rw [hstuck]
  rfl

/-! ## Turns of the main thread -/

/-- In its turn the main thread leads on, unless it cannot move. -/
theorem leads (h : Tableau a n m threads notes l) (hg : prog.Gentle) :
    m.stepMain prog = none ∧ m.turn prog .main = m ∨
    ∃ d k' main' started told,
      prog.Leads m.kernel (∀ t ∈ m.threads, t.isGone = true) m.main d k' main' started told ∧
      Scene.Moves m.scene d.toList (m.turn prog .main).scene ∧
      (m.turn prog .main).kernel = k' ∧ (m.turn prog .main).main = main' ∧
      ∀ l', (m.turn prog .main).kernel.table.Roster l' →
        ((∀ tenancy ∈ l', tenancy ≠ .vacant) →
          (m.turn prog .main).kernel.table.pool = .dealt a l'.length) →
        Tableau a n (m.turn prog .main) (threads ++ started) (notes ++ told) l' := by
  obtain ⟨htakes, horderly, hmoves⟩ := h.takes hg .main
  have hadopter := hmoves.adopter
  have hcapacity := hmoves.capacity
  generalize m.turn prog .main = m' at htakes horderly hmoves hadopter hcapacity ⊢
  cases htakes with
  | pass stuck idle stays => exact .inl ⟨stuck, rfl⟩
  | @lead k' main' started told _ leads goes =>
    refine .inr ⟨_, k', main', started, told, leads, hmoves, goes.kernel, goes.main,
      fun l' hroster hpool => ⟨horderly, hadopter.trans h.adopter, hcapacity.trans h.capacity, ?_,
        ?_, ?_, hroster, hpool⟩⟩
    · rw [goes.threads]
      intro t ht
      exact (List.mem_append.mp ht).elim (h.unblocked t) (leads.callers t)
    · rw [goes.threads, h.threads_eq]
    · rw [goes.notes, h.notes_eq]

/-- While there is room, a child that is started for the adopter gets the next identity and comes
last. -/
theorem spawn (h : Tableau a n m threads notes l) (hg : prog.Gentle) {st : μ} {child : σ}
    (hm : m.main = .directing st) (hleads : prog.lead st = .spawn a child)
    (hl : ∀ tenancy ∈ l, tenancy ≠ .vacant) (hroom : l.length + 1 < n) :
    let q := PidPool.nth a l.length
    (m.turn prog .main).main = .directing (prog.heed st (.ok (.pid q))).1 ∧
      Tableau a n (m.turn prog .main) (threads ++ [⟨q, .starting child⟩])
        (notes ++ (prog.heed st (.ok (.pid q))).2) (l ++ [.live q a]) := by
  have hpresides := h.presides
  have halive : m.kernel.table.aliveSlot a = .ok 0 := by
    rw [← h.adopter]
    exact h.sound.table.aliveSlot_of_holds h.sound.table.adopter_holds h.sound.table.adopter.alive
  rcases h.leads hg with
    ⟨hstuck, -⟩ | ⟨d, k', main', started, told, hlead, hmoves, rfl, hmain, htableau⟩
  · unfold stepMain at hstuck
    rw [hm] at hstuck
    simp only [hleads] at hstuck
    split at hstuck <;> cases hstuck
  · rw [hm] at hlead hpresides
    obtain ⟨q, rfl, hgains, rfl, rfl, rfl⟩ := hlead.of_spawn hpresides hleads halive (h.room hroom)
    obtain ⟨hq, hpool, hroster⟩ := hmoves.roster_born h.sound h.roster hl hgains
    obtain ⟨rfl, hpool⟩ := h.dealt hl hq hpool
    refine ⟨hmain, htableau _ hroster fun _ => ?_⟩
    rw [List.length_append]
    exact hpool

/-- A turn of a main thread that collects for the adopter: it goes on waiting, it collects the first
zombie of the adopter's, or it learns that there are no children. -/
theorem awaits (h : Tableau a n m threads notes l) (hg : prog.Gentle)
    (hm : prog.Awaits m.main reaped) :
    prog.Awaits (m.turn prog .main).main reaped ∧
        Tableau a n (m.turn prog .main) threads notes l ∨
      (∃ i q code, Tenancy.First l a i q code ∧
        prog.Awaits (m.turn prog .main).main (reaped ++ [(q, code)]) ∧
        Tableau a n (m.turn prog .main) threads notes (l.set i .vacant)) ∨
      (m.turn prog .main).main = .joining reaped ∧
        Tableau a n (m.turn prog .main) threads notes l ∧
        ∀ tenancy ∈ l, tenancy.parent ≠ some a := by
  have hpresides := h.presides
  rw [h.parked_eq] at hpresides
  rcases h.leads hg with
    ⟨-, hstays⟩ | ⟨d, k', main', started, told, hlead, hmoves, hkernel, rfl, htableau⟩
  · rw [hstays]
    exact .inl ⟨hm, h⟩
  · obtain ⟨rfl, rfl, hcases⟩ := hpresides.leads_awaits hg hm h.roster hlead
    rw [h.adopter] at hcases
    rw [List.append_nil, List.append_nil] at htableau
    rcases hcases with ⟨rfl, hawaits⟩ | ⟨i, q, code, hfirst, rfl, hawaits⟩ | ⟨rfl, hjoins, hnone⟩
    · obtain ⟨hroster, hpool⟩ := h.keeps_roster hmoves
      exact .inl ⟨hawaits, htableau l hroster hpool⟩
    · refine .inr (.inl ⟨i, q, code, hfirst, hawaits, htableau _ ?_ fun hl => ?_⟩)
      · exact hmoves.roster_collected h.sound h.roster hfirst.here
      · -- the slot of the zombie is a gap now
        have hlt := (List.getElem?_eq_some_iff.mp hfirst.here).1
        exact absurd rfl (hl _ (List.mem_set hlt _))
    · obtain ⟨hroster, hpool⟩ := h.keeps_roster hmoves
      exact .inr (.inr ⟨hjoins, htableau l hroster hpool, hnone⟩)

/-- A main thread that waits for threads can only conclude. -/
theorem joins (h : Tableau a n m threads notes l) (hg : prog.Gentle)
    (hm : m.main = .joining reaped ∨ m.main = .ended (.ok reaped)) :
    ((m.turn prog .main).main = .joining reaped ∨ (m.turn prog .main).main = .ended (.ok reaped)) ∧
      Tableau a n (m.turn prog .main) threads notes l := by
  rcases h.leads hg with
    ⟨-, hstays⟩ | ⟨d, k', main', started, told, hlead, hmoves, hkernel, rfl, htableau⟩
  · rw [hstays]
    exact ⟨hm, h⟩
  · rcases hm with hm | hm
    · have hconcludes := h.concludes reaped hm
      rw [hm] at hlead
      generalize (m.turn prog .main).main = main' at hlead ⊢
      cases hlead with
      | collect gathers _ | sleep gathers _ | join gathers _ => cases gathers
      | conclude done =>
        rw [hconcludes]
        obtain ⟨hroster, hpool⟩ := h.keeps_roster hmoves
        refine ⟨.inr rfl, ?_⟩
        simpa only [List.append_nil] using htableau l hroster hpool
    · rw [hm] at hlead
      generalize (m.turn prog .main).main = main' at hlead
      cases hlead with
      | collect gathers _ | sleep gathers _ | join gathers _ => cases gathers

end Tableau

end Machine

end Lifecycle
