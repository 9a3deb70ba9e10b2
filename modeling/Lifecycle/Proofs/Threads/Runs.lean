import Lifecycle.Proofs.Threads.Order
/-!
# Runs of gentle programs

Whatever the order of turns, each started body gets to run and its process ends once, with the code
that the body returned; nobody else ends it. What the adopter collected is what the main thread
hands out when the run is over, and then nobody but the adopter is left. A history is read off a
schedule turn by turn.
-/

namespace Lifecycle

namespace Deed

def born? : Deed → Option Pid
  | born p => some p
  | _ => none

def ended? : Deed → Option (Pid × ExitCode)
  | ended p code => some (p, code)
  | _ => none

/-- Who was collected, if it was for a given parent. -/
def collectedFor? (parent : Pid) : Deed → Option (Pid × ExitCode)
  | collected q p code => if q = parent then some (p, code) else none
  | _ => none

end Deed

variable {σ μ ν : Type}

/-- Whom the main thread has collected so far, unless the run has failed. -/
def MainPhase.reaped? : MainPhase μ → Option (List (Pid × ExitCode))
  | .directing _ => some []
  | .collecting reaped | .blocked reaped _ | .joining reaped => some reaped
  | .ended verdict => verdict.toOption

namespace Program

variable (prog : Program σ μ ν)

/-- The code that the body of a thread returns in its next turn, if it does. -/
def return? (p : Pid) : Phase σ → Option ExitCode
  | .active st => prog.returns? p st
  | _ => none

/-- The step that a thread takes on behalf of its own process in its next turn: it starts the
process, lets it sleep or give way and go on, or ends it. -/
def own? (k : Kernel) (p : Pid) : Phase σ → Option (Outcome Unit)
  | .starting _ | .pausing _ => some (k.transition p .running)
  | .napping _ => some (k.transition p .runnable)
  | .active st =>
    match prog.move p st with
    | .finish code => some (k.exit p code)
    | .crash => some (k.exit p crashCode)
    | .ask .nap => some (k.transition p .sleeping)
    | .ask .yield => some (k.transition p .runnable)
    | .ask _ => none
  | .blocked _ _ | .gone => none

variable {prog} {k k' : Kernel} {p : Pid} {ph ph' : Phase σ} {mp mp' : MainPhase μ} {st : σ}
  {d : Option Deed} {started : List (Thread σ)} {notes : List ν} {allGone : Prop}
  {target : Target} {o : Outcome Waiting} {reply : Reply} {next : Status}

theorem returns?_of_ask {ask : Ask σ} (h : prog.move p st = .ask ask) :
    prog.returns? p st = none := by
  rw [returns?, h]

theorem Shifts.return? (h : prog.Shifts p ph next ph') : prog.return? p ph = none := by
  cases h with
  | start | rise => rfl
  | nap asks | yield asks => exact returns?_of_ask asks

theorem Waits.return? (h : prog.Waits k p ph st target o) : prog.return? p ph = none := by
  cases h with
  | enter asks => exact returns?_of_ask asks
  | woken _ => rfl

theorem Calls.return? (h : prog.Calls k p ph st d k' started reply) :
    prog.return? p ph = none := by
  cases h with
  | self asks | forked asks _ | full asks _ | served asks _ | denied asks _ =>
    exact returns?_of_ask asks
  | collected waits _ | refused waits _ => exact waits.return?
  | awake _ => rfl

/-- A thread is gone after a turn just if its body returned in it, and then the process ended with
the code that was returned. -/
theorem Acts.return? (h : prog.Acts k p ph d k' ph' started notes) :
    (ph' = .gone ↔ ∃ code, prog.return? p ph = some code) ∧
      d.bind Deed.ended? = (prog.return? p ph).map fun code => (p, code) := by
  cases h with
  | shift shifts ok =>
    rw [shifts.return?]
    refine ⟨⟨fun hgone => ?_, nofun⟩, rfl⟩
    cases shifts <;> cases hgone
  | hear calls =>
    rw [calls.return?]
    refine ⟨⟨nofun, nofun⟩, ?_⟩
    cases calls <;> rfl
  | sleep waits ok =>
    rw [waits.return?]
    exact ⟨⟨nofun, nofun⟩, rfl⟩
  | @finish st code returns ok =>
    have hreturn : prog.return? p (.active st) = some code := returns
    rw [hreturn]
    exact ⟨⟨fun _ => ⟨code, rfl⟩, fun _ => rfl⟩, rfl⟩

theorem Waits.ne_gone (h : prog.Waits k p ph st target o) : ph ≠ .gone := by
  cases h <;> nofun

theorem Acts.ne_gone (h : prog.Acts k p ph d k' ph' started notes) : ph ≠ .gone := by
  cases h with
  | shift shifts ok => cases shifts <;> nofun
  | hear calls =>
    cases calls with
    | collected waits _ | refused waits _ => exact waits.ne_gone
    | _ => nofun
  | sleep waits ok => exact waits.ne_gone
  | finish returns ok => nofun

/-- A thread is started for each process that is born. -/
theorem Acts.born (h : prog.Acts k p ph d k' ph' started notes) :
    started.map (·.pid) = (d.bind Deed.born?).toList ∧ ∀ t ∈ started, t.phase ≠ .gone := by
  cases h with
  | shift shifts ok | sleep waits ok | finish returns ok =>
    exact ⟨rfl, fun t ht => by cases ht⟩
  | hear calls =>
    cases calls with
    | forked asks ok => exact ⟨rfl, fun t ht => by cases List.mem_singleton.mp ht; nofun⟩
    | _ => exact ⟨rfl, fun t ht => by cases ht⟩

/-- What a thread collects, it collects for its own process. -/
theorem Acts.collected (h : prog.Acts k p ph d k' ph' started notes) {parent : Pid}
    (hne : p ≠ parent) : d.bind (Deed.collectedFor? parent) = none := by
  cases h with
  | shift shifts ok | sleep waits ok | finish returns ok => rfl
  | hear calls =>
    cases calls with
    | collected waits ok => exact if_neg hne
    | _ => rfl

theorem Leads.born (h : prog.Leads k allGone mp d k' mp' started notes) :
    started.map (·.pid) = (d.bind Deed.born?).toList ∧ (∀ t ∈ started, t.phase ≠ .gone) ∧
      d.bind Deed.ended? = none := by
  cases h with
  | spawned leads ok =>
    exact ⟨rfl, (fun t ht => by cases List.mem_singleton.mp ht; nofun), rfl⟩
  | _ => exact ⟨rfl, (fun t ht => by cases ht), rfl⟩

theorem Gathers.reaped? {reaped : List (Pid × ExitCode)} (h : Gathers k mp reaped o) :
    mp.reaped? = some reaped := by
  cases h <;> rfl

/-- The main thread keeps a list of whom it collects. -/
theorem Leads.reaped? (h : prog.Leads k allGone mp d k' mp' started notes)
    (hc : ∀ reaped, mp = .joining reaped → Machine.conclude k reaped = .ok reaped)
    {reaped' : List (Pid × ExitCode)} (hr : mp'.reaped? = some reaped') :
    ∃ reaped, mp.reaped? = some reaped ∧
      reaped' = reaped ++ (d.bind (Deed.collectedFor? k.table.adopter)).toList := by
  cases h with
  | begin leads | spawned leads ok | refused leads error | served leads ok | denied leads error =>
    cases hr
    exact ⟨[], rfl, rfl⟩
  | fail leads => cases hr
  | collect gathers ok =>
    cases hr
    exact ⟨_, gathers.reaped?, by rw [Option.bind_some, Deed.collectedFor?, if_pos rfl]; rfl⟩
  | sleep gathers ok =>
    cases hr
    exact ⟨_, gathers.reaped?, (List.append_nil _).symm⟩
  | join gathers error =>
    cases hr
    exact ⟨_, gathers.reaped?, (List.append_nil _).symm⟩
  | @conclude reaped done =>
    rw [hc reaped rfl] at hr
    cases hr
    exact ⟨_, rfl, (List.append_nil _).symm⟩

theorem Leads.failed (h : prog.Leads k allGone mp d k' mp' started notes)
    (hc : ∀ reaped, mp = .joining reaped → Machine.conclude k reaped = .ok reaped)
    {failure : Failure} (hf : mp' = .ended (.error failure)) :
    ∃ st, mp = .directing st ∧ prog.lead st = .fail failure := by
  cases h with
  | fail leads =>
    cases hf
    exact ⟨_, rfl, leads⟩
  | conclude done =>
    rw [hc _ rfl] at hf
    cases hf
  | _ => cases hf

end Program

namespace Machine

variable {prog : Program σ μ ν} {m m' : Machine σ μ ν} {i : Nat} {p : Pid} {ph : Phase σ}

/-- The machine after a turn; one that cannot be taken is passed over. -/
def turn (prog : Program σ μ ν) (m : Machine σ μ ν) (t : Turn) : Machine σ μ ν :=
  (m.step prog t).getD m

/-- What a turn does to the processes, if anything. -/
def deed? (prog : Program σ μ ν) (m : Machine σ μ ν) : Turn → Option Deed
  | .main => prog.mainDeed? m.kernel m.main
  | .thread i => m.threads[i]?.bind fun t => prog.deed? m.kernel t.pid t.phase

/-- Whose body returns in a turn, if one does: its thread, its process, and the code. -/
def return? (prog : Program σ μ ν) (m : Machine σ μ ν) : Turn → Option (Nat × Pid × ExitCode)
  | .main => none
  | .thread i =>
    m.threads[i]?.bind fun t => (prog.return? t.pid t.phase).map fun code => (i, t.pid, code)

theorem not_gone_of_return? {t : Turn} {code : ExitCode} (h : m.return? prog t = some (i, p, code))
    (q : Pid) : m.threads[i]? ≠ some ⟨q, .gone⟩ := by
  cases t with
  | main => cases h
  | thread n =>
    obtain ⟨thread, hthread, hmap⟩ := Option.bind_eq_some_iff.mp h
    obtain ⟨code', hcode, heq⟩ := Option.map_eq_some_iff.mp hmap
    obtain rfl : n = i := congrArg Prod.fst heq
    intro hgone
    rw [hthread] at hgone
    obtain rfl := Option.some.inj hgone
    cases hcode

/-- What is seen of the turns of a schedule, in order. -/
def history {α : Type} (prog : Program σ μ ν) (see : Machine σ μ ν → Turn → Option α)
    (m : Machine σ μ ν) : List Turn → List α
  | [] => []
  | t :: schedule => (see m t).toList ++ history prog see (m.turn prog t) schedule

/-- The deeds of a schedule. -/
def deeds (prog : Program σ μ ν) (m : Machine σ μ ν) (schedule : List Turn) : List Deed :=
  m.history prog (deed? prog) schedule

/-- The returns of bodies in a schedule. -/
def returns (prog : Program σ μ ν) (m : Machine σ μ ν) (schedule : List Turn) :
    List (Nat × Pid × ExitCode) :=
  m.history prog (return? prog) schedule

theorem deeds_cons (t : Turn) (schedule : List Turn) : m.deeds prog (t :: schedule) =
    (m.deed? prog t).toList ++ (m.turn prog t).deeds prog schedule := rfl

theorem returns_cons (t : Turn) (schedule : List Turn) : m.returns prog (t :: schedule) =
    (m.return? prog t).toList ++ (m.turn prog t).returns prog schedule := rfl

/-- No thread is refused a step on behalf of its own process, but a fork for want of room. -/
def Unhindered (prog : Program σ μ ν) (m : Machine σ μ ν) : Prop :=
  ∀ i p ph, m.threads[i]? = some ⟨p, ph⟩ →
    (∀ o, prog.own? m.kernel p ph = some o →
      o.result = .ok () ∧ ∃ m', m.stepThread prog i = some m' ∧ m'.kernel = o.kernel) ∧
    ∀ st child, ph = .active st → prog.move p st = .ask (.fork child) →
      (∃ q, (m.kernel.fork p).result = .ok q) ∨
        (m.kernel.fork p).result = .error (.refused .tableFull)

/-- What a turn comes down to in an orderly machine. -/
inductive Takes (prog : Program σ μ ν) (m : Machine σ μ ν) : Turn → Machine σ μ ν → Prop
  | pass {turn : Turn} (stuck : m.step prog turn = none) (idle : m.deed? prog turn = none)
      (stays : m.return? prog turn = none) : Takes prog m turn m
  | act {i : Nat} {p : Pid} {ph ph' : Phase σ} {k' : Kernel} {started : List (Thread σ)}
      {notes : List ν} {m' : Machine σ μ ν} (thread : m.threads[i]? = some ⟨p, ph⟩)
      (other : p ≠ m.kernel.table.adopter)
      (acts : prog.Acts m.kernel p ph (m.deed? prog (.thread i)) k' ph' started notes)
      (goes : m.Goes m' k' m.main ((m.threads ++ started).set i ⟨p, ph'⟩) notes) :
      Takes prog m (.thread i) m'
  | lead {k' : Kernel} {main' : MainPhase μ} {started : List (Thread σ)} {notes : List ν}
      {m' : Machine σ μ ν}
      (leads : prog.Leads m.kernel (∀ t ∈ m.threads, t.isGone = true) m.main (m.deed? prog .main)
        k' main' started notes)
      (goes : m.Goes m' k' main' (m.threads ++ started) notes) : Takes prog m .main m'

/-- The main thread cannot move while it is blocked, while it waits for threads, and in the end. -/
theorem stuck_main (h : m.stepMain prog = none) : prog.mainDeed? m.kernel m.main = none := by
  unfold stepMain at h
  cases hm : m.main with
  | directing st =>
    rw [hm] at h
    simp only at h
    cases hlead : prog.lead st with
    | spawn parent child =>
      rw [hlead] at h
      simp only at h
      split at h <;> cases h
    | _ =>
      rw [hlead] at h
      cases h
  | collecting reaped =>
    rw [hm] at h
    cases h
  | blocked reaped w =>
    rw [hm] at h
    simp only at h
    split at h
    · cases h
    · rename_i hwoken
      exact if_neg hwoken
  | joining reaped | ended verdict => rfl

/-- A thread cannot move while it is blocked, and when it is gone. -/
theorem stuck_thread (hi : m.threads[i]? = some ⟨p, ph⟩) (h : m.stepThread prog i = none) :
    prog.deed? m.kernel p ph = none ∧ prog.return? p ph = none := by
  unfold stepThread at h
  rw [hi] at h
  simp only at h
  cases ph with
  | starting st =>
    simp only at h
    split at h <;> cases h
  | active st =>
    simp only at h
    split at h <;> cases h
  | napping st | pausing st => cases h
  | blocked st w =>
    simp only at h
    split at h
    · cases h
    · rename_i hwoken
      exact ⟨if_neg hwoken, rfl⟩
  | gone => exact ⟨rfl, rfl⟩

theorem Seated.own {k : Kernel} {others : Multiset Waiter} {j : Nat} {o : Outcome Unit}
    (h : Seated k others p j ph) (ho : prog.own? k p ph = some o) : o.result = .ok () := by
  cases ph with
  | starting st =>
    obtain rfl := Option.some.inj ho
    exact (h.shift (.start : prog.Shifts ..)).2.1
  | pausing st =>
    obtain rfl := Option.some.inj ho
    exact h.awake.1
  | napping st =>
    obtain rfl := Option.some.inj ho
    exact (h.shift (.rise : prog.Shifts ..)).2.1
  | active st =>
    simp only [Program.own?] at ho
    split at ho
    · obtain rfl := Option.some.inj ho
      exact h.exit _
    · obtain rfl := Option.some.inj ho
      exact h.exit _
    · rename_i hmove
      obtain rfl := Option.some.inj ho
      exact (h.shift (.nap hmove)).2.1
    · rename_i hmove
      obtain rfl := Option.some.inj ho
      exact (h.shift (.yield hmove)).2.1
    · cases ho
  | blocked st w | gone => cases ho

/-- The turn of a thread takes the step on behalf of its own process. -/
theorem stepThread_own {o : Outcome Unit} (hi : m.threads[i]? = some ⟨p, ph⟩)
    (ho : prog.own? m.kernel p ph = some o) (hok : o.result = .ok ()) :
    ∃ m', m.stepThread prog i = some m' ∧ m'.kernel = o.kernel := by
  unfold stepThread
  rw [hi]
  cases ph with
  | starting st =>
    obtain rfl := Option.some.inj ho
    simp only [hok]
    exact ⟨_, rfl, rfl⟩
  | pausing st | napping st =>
    obtain rfl := Option.some.inj ho
    refine ⟨_, rfl, ?_⟩
    unfold shift
    simp only [hok]
    rfl
  | active st =>
    simp only [Program.own?] at ho
    simp only
    split at ho
    · rename_i hmove
      obtain rfl := Option.some.inj ho
      rw [hmove]
      exact ⟨_, rfl, (goes_exit hok).kernel⟩
    · rename_i hmove
      obtain rfl := Option.some.inj ho
      rw [hmove]
      exact ⟨_, rfl, (goes_exit (m := m.tell (.process p) (.crashed p)) hok).kernel⟩
    · rename_i hmove
      obtain rfl := Option.some.inj ho
      rw [hmove]
      refine ⟨_, rfl, ?_⟩
      unfold grant shift
      simp only [hok]
      rfl
    · rename_i hmove
      obtain rfl := Option.some.inj ho
      rw [hmove]
      refine ⟨_, rfl, ?_⟩
      unfold grant shift
      simp only [hok]
      rfl
    · cases ho
  | blocked st w | gone => cases ho

namespace Orderly

/-- A turn in an orderly machine is one of those described, and keeps order. -/
theorem takes (h : Orderly m) (hg : prog.Gentle) (turn : Turn) :
    Takes prog m turn (m.turn prog turn) ∧ Orderly (m.turn prog turn) ∧
      Scene.Moves m.scene (m.deed? prog turn).toList (m.turn prog turn).scene := by
  -- a turn that cannot be taken
  have hpass : m.step prog turn = none → m.deed? prog turn = none → m.return? prog turn = none →
      Takes prog m turn (m.turn prog turn) ∧ Orderly (m.turn prog turn) ∧
        Scene.Moves m.scene (m.deed? prog turn).toList (m.turn prog turn).scene := by
    intro hstuck hidle hstays
    have hturn : m.turn prog turn = m := by rw [Machine.turn, hstuck, Option.getD_none]
    rw [hturn, hidle]
    exact ⟨.pass hstuck hidle hstays, h, .refl⟩
  cases hstep : m.step prog turn with
  | none =>
    cases turn with
    | main => exact hpass hstep (stuck_main hstep) rfl
    | thread i =>
      cases hi : m.threads[i]? with
      | none => exact hpass hstep (by rw [deed?, hi]; rfl) (by rw [return?, hi]; rfl)
      | some t =>
        obtain ⟨p, ph⟩ := t
        obtain ⟨hdeed, hreturn⟩ := stuck_thread hi hstep
        refine hpass hstep ?_ ?_
        · rw [deed?, hi]
          exact hdeed
        · rw [return?, hi, Option.bind_some, hreturn]
          rfl
  | some m' =>
    have hturn : m.turn prog turn = m' := by rw [Machine.turn, hstep, Option.getD_some]
    rw [hturn]
    cases turn with
    | main =>
      obtain ⟨k', main', started, notes, hleads, hgoes, horderly, hmoves⟩ := h.stepMain hg hstep
      exact ⟨.lead hleads hgoes, horderly, hmoves⟩
    | thread i =>
      cases hi : m.threads[i]? with
      | none =>
        change m.stepThread prog i = some m' at hstep
        unfold Machine.stepThread at hstep
        rw [hi] at hstep
        cases hstep
      | some t =>
        obtain ⟨p, ph⟩ := t
        obtain ⟨hne, k', ph', started, notes, hacts, hgoes, horderly, hmoves⟩ :=
          h.stepThread hg hi hstep
        have hdeed : m.deed? prog (.thread i) = prog.deed? m.kernel p ph := by
          rw [deed?, hi, Option.bind_some]
        rw [hdeed]
        exact ⟨.act hi hne (hdeed ▸ hacts) hgoes, horderly, hmoves⟩

end Orderly

/-! ## What a turn leaves behind -/

namespace Takes

variable {t : Turn} {threads started : List (Thread σ)}

private theorem pids_set (hi : threads[i]? = some ⟨p, ph⟩) (ph' : Phase σ) :
    (threads.set i ⟨p, ph'⟩).map (·.pid) = threads.map (·.pid) := by
  have hpid : (threads.map (·.pid))[i]? = some p := by rw [List.getElem?_map, hi, Option.map_some]
  obtain ⟨hlt, hget⟩ := List.getElem?_eq_some_iff.mp hpid
  rw [List.map_set, ← hget, List.set_getElem_self]

/-- The threads are those of the processes that were born. -/
theorem pids (h : Takes prog m t m') : m'.threads.map (·.pid) =
    m.threads.map (·.pid) ++ ((m.deed? prog t).bind Deed.born?).toList := by
  cases h with
  | pass stuck idle stays =>
    rw [idle]
    exact (List.append_nil _).symm
  | act thread other acts goes =>
    have hlt := (List.getElem?_eq_some_iff.mp thread).1
    rw [goes.threads, List.set_append_left _ _ hlt, List.map_append, pids_set thread, acts.born.1]
  | lead leads goes => rw [goes.threads, List.map_append, leads.born.1]

/-- A process ends just if the body of its thread returns. -/
theorem ended (h : Takes prog m t m') :
    (m.deed? prog t).bind Deed.ended? = (m.return? prog t).map Prod.snd := by
  cases h with
  | pass stuck idle stays =>
    rw [idle, stays]
    rfl
  | act thread other acts goes =>
    rw [acts.return?.2, return?, thread, Option.bind_some, Option.map_map]
    rfl
  | lead leads goes =>
    rw [leads.born.2.2]
    rfl

private theorem gone_append (hs : ∀ t ∈ started, t.phase ≠ .gone) :
    (threads ++ started)[i]? = some ⟨p, .gone⟩ ↔ threads[i]? = some ⟨p, .gone⟩ := by
  rcases Nat.lt_or_ge i threads.length with hlt | hge
  · rw [List.getElem?_append_left hlt]
  · rw [List.getElem?_append_right hge, List.getElem?_eq_none hge]
    refine ⟨fun hi => ?_, nofun⟩
    exact absurd rfl (hs _ (List.mem_of_getElem? hi))

/-- A thread is gone just if it was before or its body returned in the turn. -/
theorem gone (h : Takes prog m t m') (i : Nat) (p : Pid) :
    m'.threads[i]? = some ⟨p, .gone⟩ ↔
      m.threads[i]? = some ⟨p, .gone⟩ ∨ ∃ code, m.return? prog t = some (i, p, code) := by
  cases h with
  | pass stuck idle stays =>
    rw [stays]
    exact ⟨.inl, fun h => h.resolve_right nofun⟩
  | lead leads goes =>
    rw [goes.threads, gone_append leads.born.2.1]
    exact ⟨.inl, fun h => h.resolve_right nofun⟩
  | @act n q ph ph' k' started notes _ thread other acts goes =>
    have hlt := (List.getElem?_eq_some_iff.mp thread).1
    have hreturn : m.return? prog (.thread n) =
        (prog.return? q ph).map fun code => (n, q, code) := by
      rw [return?, thread, Option.bind_some]
    rw [goes.threads, hreturn]
    by_cases hni : n = i
    · subst hni
      rw [List.getElem?_set_self (by rw [List.length_append]; omega), thread]
      constructor
      · intro hset
        obtain ⟨rfl, rfl⟩ := Thread.mk.inj (Option.some.inj hset)
        obtain ⟨code, hcode⟩ := acts.return?.1.mp rfl
        exact .inr ⟨code, by rw [hcode]; rfl⟩
      · rintro (hgone | ⟨code, hcode⟩)
        · exact absurd (congrArg Thread.phase (Option.some.inj hgone)) acts.ne_gone
        · obtain ⟨code', hcode', heq⟩ := Option.map_eq_some_iff.mp hcode
          obtain ⟨-, rfl, -⟩ := heq
          rw [acts.return?.1.mpr ⟨_, hcode'⟩]
    · rw [List.getElem?_set_ne hni, gone_append acts.born.2]
      refine ⟨.inl, fun h => h.resolve_right ?_⟩
      rintro ⟨code, hcode⟩
      obtain ⟨code', -, heq⟩ := Option.map_eq_some_iff.mp hcode
      exact hni (congrArg Prod.fst heq)

/-- The list of the main thread is added to when the adopter collects. -/
theorem reaped? (h : Takes prog m t m') (ho : Orderly m) {reaped' : List (Pid × ExitCode)}
    (hr : m'.main.reaped? = some reaped') :
    ∃ reaped, m.main.reaped? = some reaped ∧ reaped' = reaped ++
      ((m.deed? prog t).bind (Deed.collectedFor? m.kernel.table.adopter)).toList := by
  cases h with
  | pass stuck idle stays =>
    rw [idle]
    exact ⟨reaped', hr, (List.append_nil _).symm⟩
  | act thread other acts goes =>
    rw [acts.collected other]
    rw [goes.main] at hr
    exact ⟨reaped', hr, (List.append_nil _).symm⟩
  | lead leads goes =>
    rw [goes.main] at hr
    exact leads.reaped? ho.concludes hr

/-- The run fails only when the main thread gives up while it is directing. -/
theorem failed (h : Takes prog m t m') (ho : Orderly m) {failure : Failure}
    (hm : m'.main = .ended (.error failure)) :
    m.main = .ended (.error failure) ∨
      t = .main ∧ ∃ st, m.main = .directing st ∧ prog.lead st = .fail failure := by
  cases h with
  | pass stuck idle stays => exact .inl hm
  | act thread other acts goes => exact .inl (goes.main ▸ hm)
  | lead leads goes =>
    rw [goes.main] at hm
    exact .inr ⟨rfl, leads.failed ho.concludes hm⟩

end Takes

/-! ## Runs by schedules -/

theorem ended_of_verdict? {verdict : Verdict} (h : m.verdict? = some verdict) :
    m.main = .ended verdict := by
  unfold verdict? at h
  split at h
  · rename_i hmain
    rw [hmain, Option.some.inj h]
  · cases h

/-- In a pass everybody has a turn. -/
theorem pass_eq_follow (m : Machine σ μ ν) : (m.pass prog).1 =
    m.follow prog (.main :: (List.range m.threads.length).map .thread) := by
  refine (List.foldl_hom Prod.fst fun x t => ?_).symm
  obtain ⟨m, moved⟩ := x
  show (m.step prog t).getD m = _
  dsimp only
  cases m.step prog t <;> rfl

/-- A run is one of the orders in which all may take turns. -/
theorem run_eq_follow (prog : Program σ μ ν) (passes : Nat) (m : Machine σ μ ν) :
    ∃ schedule, m.run prog passes = m.follow prog schedule := by
  induction passes generalizing m with
  | zero => exact ⟨[], rfl⟩
  | succ passes ih =>
    rw [run]
    split
    · exact ⟨[], rfl⟩
    · dsimp only
      split
      · obtain ⟨schedule, hrun⟩ := ih (m.pass prog).1
        refine ⟨.main :: (List.range m.threads.length).map .thread ++ schedule, ?_⟩
        rw [hrun, pass_eq_follow, follow, follow, follow, List.foldl_append]
      · exact ⟨_, pass_eq_follow m⟩

/-- What every turn keeps is kept by every schedule. -/
theorem follow_keep {P : Machine σ μ ν → Prop} (hP : ∀ {m} (t : Turn), P m → P (m.turn prog t))
    (h : P m) (schedule : List Turn) : P (m.follow prog schedule) := by
  induction schedule generalizing m with
  | nil => exact h
  | cons t schedule ih => exact ih (hP t h)

theorem run_keep {P : Machine σ μ ν → Prop} (hP : ∀ {m} (t : Turn), P m → P (m.turn prog t))
    (h : P m) (passes : Nat) : P (m.run prog passes) := by
  obtain ⟨schedule, hrun⟩ := run_eq_follow prog passes m
  rw [hrun]
  exact follow_keep hP h schedule

/-! ## What a run leaves behind -/

section

variable {α β : Type} {see : Machine σ μ ν → Turn → Option α}

theorem filterMap_history (φ : α → Option β) (m : Machine σ μ ν) (schedule : List Turn) :
    (m.history prog see schedule).filterMap φ =
      m.history prog (fun m t => (see m t).bind φ) schedule := by
  induction schedule generalizing m with
  | nil => rfl
  | cons t schedule ih =>
    rw [history, List.filterMap_append, ih, history]
    congr 1
    cases see m t with
    | none => rfl
    | some a =>
      rw [Option.toList_some, List.filterMap_cons, Option.bind_some]
      cases φ a <;> rfl

theorem map_history (φ : α → β) (m : Machine σ μ ν) (schedule : List Turn) :
    (m.history prog see schedule).map φ =
      m.history prog (fun m t => (see m t).map φ) schedule := by
  induction schedule generalizing m with
  | nil => rfl
  | cons t schedule ih =>
    rw [history, List.map_append, ih, history]
    cases see m t <;> rfl

namespace Orderly

theorem follow (h : Orderly m) (hg : prog.Gentle) (schedule : List Turn) :
    Orderly (m.follow prog schedule) :=
  follow_keep (fun t h => (h.takes hg t).2.1) h schedule

theorem history_congr (h : Orderly m) (hg : prog.Gentle)
    {see' : Machine σ μ ν → Turn → Option α}
    (heq : ∀ {m : Machine σ μ ν} (t : Turn), Orderly m → see m t = see' m t)
    (schedule : List Turn) : m.history prog see schedule = m.history prog see' schedule := by
  induction schedule generalizing m with
  | nil => rfl
  | cons t schedule ih => rw [history, heq t h, ih (h.takes hg t).2.1, history]

/-- A list that every turn adds to what is seen of it adds up to the history. -/
theorem view_follow (h : Orderly m) (hg : prog.Gentle) (view : Machine σ μ ν → List α)
    (hv : ∀ {m : Machine σ μ ν} (t : Turn), Orderly m →
      view (m.turn prog t) = view m ++ (see m t).toList) (schedule : List Turn) :
    view (m.follow prog schedule) = view m ++ m.history prog see schedule := by
  induction schedule generalizing m with
  | nil => exact (List.append_nil _).symm
  | cons t schedule ih =>
    show view ((m.turn prog t).follow prog schedule) = _
    rw [ih (h.takes hg t).2.1, hv t h, history, List.append_assoc]

end Orderly

end

namespace Orderly

/-- The identity of the adopter does not change. -/
theorem adopter_turn (h : Orderly m) (hg : prog.Gentle) (t : Turn) :
    (m.turn prog t).kernel.table.adopter = m.kernel.table.adopter :=
  (h.takes hg t).2.2.keep (P := fun x => x.table.adopter = m.kernel.table.adopter)
    (fun hx hmove => hmove.fixed.2.trans hx) rfl

theorem reaped_follow (h : Orderly m) (hg : prog.Gentle) (schedule : List Turn)
    {reaped' : List (Pid × ExitCode)}
    (hr : (m.follow prog schedule).main.reaped? = some reaped') :
    ∃ reaped, m.main.reaped? = some reaped ∧ reaped' = reaped ++
      (m.deeds prog schedule).filterMap (Deed.collectedFor? m.kernel.table.adopter) := by
  induction schedule generalizing m with
  | nil => exact ⟨reaped', hr, (List.append_nil _).symm⟩
  | cons t schedule ih =>
    obtain ⟨htakes, horderly, -⟩ := h.takes hg t
    obtain ⟨between, hbetween, rfl⟩ := ih horderly hr
    obtain ⟨reaped, hreaped, rfl⟩ := htakes.reaped? h hbetween
    refine ⟨reaped, hreaped, ?_⟩
    rw [h.adopter_turn hg, deeds_cons, List.filterMap_append, List.append_assoc]
    congr 2
    cases m.deed? prog t with
    | none => rfl
    | some d =>
      rw [Option.toList_some, List.filterMap_cons, Option.bind_some]
      cases d.collectedFor? m.kernel.table.adopter <;> rfl

theorem failed_follow (h : Orderly m) (hg : prog.Gentle) (schedule : List Turn) {failure : Failure}
    (hm : (m.follow prog schedule).main = .ended (.error failure)) :
    m.main = .ended (.error failure) ∨ ∃ before st after, schedule = before ++ .main :: after ∧
      (m.follow prog before).main = .directing st ∧ prog.lead st = .fail failure := by
  induction schedule generalizing m with
  | nil => exact .inl hm
  | cons t schedule ih =>
    obtain ⟨htakes, horderly, -⟩ := h.takes hg t
    rcases ih horderly hm with hended | ⟨before, st, after, rfl, hst, hfail⟩
    · refine (htakes.failed h hended).imp_right ?_
      rintro ⟨rfl, st, hst, hfail⟩
      exact ⟨[], st, schedule, rfl, hst, hfail⟩
    · exact .inr ⟨t :: before, st, after, rfl, hst, hfail⟩

/-- A thread is gone after a run just if it was before or its body returned. -/
theorem gone_follow (h : Orderly m) (hg : prog.Gentle) (schedule : List Turn) (i : Nat)
    (p : Pid) : (m.follow prog schedule).threads[i]? = some ⟨p, .gone⟩ ↔
      m.threads[i]? = some ⟨p, .gone⟩ ∨ ∃ code, (i, p, code) ∈ m.returns prog schedule := by
  induction schedule generalizing m with
  | nil => exact ⟨.inl, fun h => h.resolve_right fun ⟨_, hmem⟩ => nomatch hmem⟩
  | cons t schedule ih =>
    obtain ⟨htakes, horderly, -⟩ := h.takes hg t
    show ((m.turn prog t).follow prog schedule).threads[i]? = _ ↔ _
    rw [ih horderly, htakes.gone, or_assoc, returns_cons]
    refine or_congr_right ?_
    simp only [List.mem_append, Option.mem_toList, exists_or]

/-- No body returns twice. -/
theorem nodup_returns (h : Orderly m) (hg : prog.Gentle) (schedule : List Turn) :
    ((m.returns prog schedule).map Prod.fst).Nodup ∧
      ∀ r ∈ m.returns prog schedule, ∀ p, m.threads[r.1]? ≠ some ⟨p, .gone⟩ := by
  induction schedule generalizing m with
  | nil => exact ⟨.nil, fun r hr => nomatch hr⟩
  | cons t schedule ih =>
    obtain ⟨htakes, horderly, -⟩ := h.takes hg t
    obtain ⟨hnodup, hlater⟩ := ih horderly
    -- whoever returns later is not gone after the turn, and so was not before it
    have hbefore : ∀ r ∈ (m.turn prog t).returns prog schedule, ∀ p,
        m.threads[r.1]? ≠ some ⟨p, .gone⟩ :=
      fun r hr p hgone => hlater r hr p ((htakes.gone r.1 p).mpr (.inl hgone))
    rw [returns_cons]
    cases hreturn : m.return? prog t with
    | none => exact ⟨hnodup, hbefore⟩
    | some r =>
      obtain ⟨i, q, code⟩ := r
      have hgone := (htakes.gone i q).mpr (.inr ⟨code, hreturn⟩)
      refine ⟨List.nodup_cons.mpr ⟨fun hmem => ?_, hnodup⟩, fun r hr p => ?_⟩
      · obtain ⟨r, hr, rfl⟩ := List.mem_map.mp hmem
        exact hlater r hr q hgone
      · rcases List.mem_cons.mp hr with rfl | hr
        · exact not_gone_of_return? hreturn p
        · exact hbefore r hr p

theorem unhindered (h : Orderly m) : Unhindered prog m := by
  intro i p ph hi
  by_cases hgone : ph = .gone
  · subst hgone
    exact ⟨nofun, nofun⟩
  · obtain ⟨j, hseat⟩ := h.seat hi hgone
    refine ⟨fun o ho => ?_, ?_⟩
    · have hok := hseat.own ho
      exact ⟨hok, stepThread_own hi ho hok⟩
    · rintro st child rfl -
      exact hseat.fork

theorem alone (h : Orderly m) {reaped : List (Pid × ExitCode)}
    (hm : m.main = .ended (.ok reaped)) : m.kernel.table.Alone := by
  have hfits := h.main
  rw [hm] at hfits
  exact hfits

theorem allGone (h : Orderly m) (ha : m.kernel.table.Alone) : ∀ t ∈ m.threads, t.isGone = true := by
  intro t ht
  obtain ⟨i, hi⟩ := List.getElem?_of_mem ht
  obtain ⟨j, hj, hstands⟩ := h.seating.seated i t.pid t.phase hi
  rcases hstands with hgone | ⟨hp, -⟩
  · rw [Thread.isGone, hgone]
  · exact absurd ((h.sound.table.holds_iff_of_alone ha).mp hp).1 hj

end Orderly

/-- However the threads of a gentle program and the main thread take turns, no thread is refused a
step on behalf of its own process, but a fork for want of room. There is a thread for each process
that was born; a process ends just when the body of its thread returns, with the code that it
returns, and each body returns at most once. When the run is over it has yielded whom the adopter
collected, unless the main thread gave up while it was directing; then the adopter is alone and all
bodies have returned. -/
theorem follow_gentle {config : Config} {k : Kernel} (hg : prog.Gentle)
    (hk : Kernel.boot config = .ok k) (state : μ) (journal : Journal) (schedule : List Turn) :
    let start := Machine.start k state journal
    let m := start.follow prog schedule
    let deeds := start.deeds prog schedule
    let returns := start.returns prog schedule
    m.Unhindered prog ∧
    (∀ t, m.kernel.table.Turn (m.deed? prog t) (m.turn prog t).kernel.table) ∧
    m.threads.map (·.pid) = deeds.filterMap Deed.born? ∧
    deeds.filterMap Deed.ended? = returns.map Prod.snd ∧
    (returns.map Prod.fst).Nodup ∧
    (∀ i p, m.threads[i]? = some ⟨p, .gone⟩ ↔ ∃ code, (i, p, code) ∈ returns) ∧
    (∀ failure, m.verdict? = some (.error failure) →
      ∃ before st after, schedule = before ++ .main :: after ∧
        (start.follow prog before).main = .directing st ∧ prog.lead st = .fail failure) ∧
    ∀ reaped, m.verdict? = some (.ok reaped) →
      reaped = deeds.filterMap (Deed.collectedFor? k.table.adopter) ∧
        m.kernel.table.liveCount = 1 ∧ ∀ t ∈ m.threads, t.isGone = true := by
  intro start m deeds returns
  have hstart : Orderly start := .start hk state journal
  have hm : Orderly m := hstart.follow hg schedule
  refine ⟨hm.unhindered, fun t => (hm.takes hg t).2.2.turn hm.sound, ?_, ?_, ?_, ?_, ?_, ?_⟩
  · have hview := hstart.view_follow hg (fun m => m.threads.map (·.pid))
      (fun t ho => (ho.takes hg t).1.pids) schedule
    exact hview.trans (filterMap_history Deed.born? start schedule).symm
  · have hturns := hstart.history_congr hg (fun t ho => (ho.takes hg t).1.ended) schedule
    exact (filterMap_history _ _ _).trans (hturns.trans (map_history _ _ _).symm)
  · exact (hstart.nodup_returns hg schedule).1
  · intro i p
    rw [hstart.gone_follow hg schedule]
    exact ⟨fun h => h.resolve_left nofun, .inr⟩
  · intro failure hv
    exact (hstart.failed_follow hg schedule (ended_of_verdict? hv)).resolve_left nofun
  · intro reaped hv
    have hmain := ended_of_verdict? hv
    have hlast : m.main.reaped? = some reaped := by
      rw [hmain]
      rfl
    obtain ⟨first, hfirst, hreaped⟩ := hstart.reaped_follow hg schedule hlast
    obtain rfl := Option.some.inj hfirst
    have halone := hm.alone hmain
    exact ⟨hreaped, hm.sound.table.liveCount_eq_one halone, hm.allGone halone⟩

/-- How far the processes of a quarrel are. -/
inductive Quarrel where
  | fork
  | kill
  | yield
  | wait
  | finish
  | nap
  | linger
  | crash

/-- A parent forks a child, kills it, gives way, and collects it. The child takes a nap and waits for
children of its own, which a process that has been killed may not do; then it crashes. -/
def quarrel : Program Quarrel Bool Unit where
  move _ st :=
    match st with
    | .fork => .ask (.fork .nap)
    | .kill => .ask (.call (.kill ⟨1⟩))
    | .yield => .ask .yield
    | .wait => .ask (.wait .any)
    | .finish => .finish 7
    | .nap => .ask .nap
    | .linger => .ask (.wait .any)
    | .crash => .crash
  hear _ st _ :=
    match st with
    | .fork => (.kill, [])
    | .kill => (.yield, [])
    | .yield => (.wait, [])
    | .wait => (.finish, [])
    | .nap => (.linger, [])
    | _ => (.crash, [()])
  lead done := if done then .finish else .spawn ⟨5⟩ .fork
  heed _ _ := (true, [])

/-- The child is killed while it naps. The parent and the adopter both have to wait. -/
def quarrelTurns : List Turn :=
  [.main, .thread 0, .thread 0, .thread 1, .thread 1, .thread 0, .thread 0, .thread 1, .main, .main,
    .thread 0, .thread 0, .thread 0, .thread 1, .thread 1, .thread 1, .thread 0, .thread 0, .main,
    .main, .main]

theorem quarrel_gentle : quarrel.Gentle where
  asks p st r h := by
    cases st <;> cases h
    rfl
  leads st r h := by cases st <;> cases h

theorem follow_quarrel :
    ∃ k, Kernel.boot ⟨3, ⟨5⟩⟩ = .ok k ∧
      let start := Machine.start k false #[]
      let m := start.follow quarrel quarrelTurns
      start.returns quarrel quarrelTurns = [(1, ⟨1⟩, crashCode), (0, ⟨0⟩, 7)] ∧
      (start.deeds quarrel quarrelTurns).filterMap Deed.ended? = [(⟨1⟩, crashCode), (⟨0⟩, 7)] ∧
      m.verdict? = some (.ok [(⟨0⟩, 7)]) ∧ m.kernel.table.liveCount = 1 := by
  have hk : Kernel.boot ⟨3, ⟨5⟩⟩ = .ok _ := rfl
  obtain ⟨-, -, -, hended, -, -, -, hover⟩ :=
    follow_gentle quarrel_gentle hk false #[] quarrelTurns
  refine ⟨_, hk, by decide, hended.trans ?_, by rfl, (hover [(⟨0⟩, 7)] (by rfl)).2.1⟩
  decide

end Machine

end Lifecycle
