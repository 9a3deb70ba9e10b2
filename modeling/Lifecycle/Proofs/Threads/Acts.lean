import Lifecycle.Proofs.Kernel.Atomicity
import Lifecycle.Proofs.Kernel.Frames
import Lifecycle.Threads.Machine
/-!
# What a turn comes down to

The bodies of a gentle program change the table only by forking, waiting, napping and giving way,
and by killing. While the thread of a process finds the status that it expects in the slot it stands
on, its turn is one of four things: it moves its process on, it hears an answer or a refusal, it
falls asleep in a wait, or it ends its process. The main thread directs the run, collects for the
adopter, and concludes.
-/

namespace Lifecycle

/-- A request that at most marks a process as killed. -/
def Request.isGentle : Request → Bool
  | .kill _ | .children _ | .status _ | .parent _ | .exitCode _ | .profile _ | .memory _ | .pages _
  | .maps _ _ | .liveCount | .capacity | .adopter | .profiles => true
  | _ => false

namespace Kernel

variable {k : Kernel} {r : Request}

/-- A gentle request is answered or refused. It does no deed and spares everybody. -/
theorem serve_gentle (h : r.isGentle = true) :
    ((∃ a, (k.serve r).result = .ok a ∧ r.deed? a = none) ∨
      ∃ why, (k.serve r).result = .error (.refused why)) ∧
    (∀ j, k.table.Spares (k.serve r).kernel.table j) ∧
    k.table.Houses (k.serve r).kernel.table := by
  cases r with
  | kill p =>
    refine ⟨?_, k.spares_kill p, (k.keeps_kill p).houses⟩
    rcases k.kill_cases p with ⟨why, hr⟩ | ⟨i, -, -, hr⟩
    · exact .inr ⟨why, by rw [serve, hr]; rfl⟩
    · exact .inl ⟨.done, by rw [serve, hr]; rfl, rfl⟩
  | children _ | status _ | parent _ | exitCode _ | profile _ | memory _ | pages _ | maps _ _
  | liveCount | capacity | adopter | profiles =>
    exact ⟨.inl ⟨_, rfl, rfl⟩, .refl _, .refl _⟩
  | _ => cases h

/-- A process with the default image is created or refused. -/
theorem create_default (k : Kernel) (parent : Pid) :
    (∃ q, (k.create parent defaultImage).result = .ok q) ∨
      ∃ why, (k.create parent defaultImage).result = .error (.refused why) := by
  have hbuilt : (AddressSpace.ofRegions defaultImage).result = .ok () := rfl
  rw [(create_eq_install k hbuilt).1]
  rcases k.install_cases parent (AddressSpace.ofRegions defaultImage).space with
    ⟨why, hr⟩ | ⟨i, -, hr⟩
  · exact .inr ⟨why, by rw [hr]; rfl⟩
  · exact .inl ⟨_, hr.1⟩

/-- While the table has room, a living process gets children with the default image. -/
theorem create_alive {k : Kernel} {parent : Pid} {i : Nat}
    (ha : k.table.aliveSlot parent = .ok i) :
    (∃ q, (k.create parent defaultImage).result = .ok q) ∨
      (k.create parent defaultImage).result = .error (.refused .tableFull) ∧
        k.table.freeSlot? = none := by
  have hbuilt : (AddressSpace.ofRegions defaultImage).result = .ok () := rfl
  rw [(create_eq_install k hbuilt).1]
  exact install_alive ha _

end Kernel

/-- What a wait that got so far has done on behalf of a process, if anything. -/
def Outcome.deed? (o : Outcome Waiting) (parent : Pid) : Option Deed :=
  match o.result with
  | .ok (.collected p code) => some (.collected parent p code)
  | _ => none

theorem Outcome.deeds_eq (o : Outcome Waiting) (parent : Pid) :
    o.deeds parent = (o.deed? parent).toList := by
  rw [deeds, deed?]
  cases o.result with
  | error fault => rfl
  | ok waiting => cases waiting <;> rfl

variable {σ μ ν : Type}

/-- The caller that a thread has blocked in a wait. -/
def Phase.callers : Phase σ → Multiset Waiter
  | .blocked _ w => {w}
  | _ => 0

/-- A thread finds its process in the status that it expects. -/
def Phase.Fits (p : Pid) (j : Nat) (s : Slot) : Phase σ → Prop
  | .starting _ | .pausing _ => s.status = .runnable ∧ s.waiters = 0
  | .active _ => s.status = .running ∧ s.waiters = 0
  | .napping _ => s.status = .sleeping ∧ s.waiters = 0
  | .blocked _ w => w.caller.slot = j ∧ w.caller.parent = p ∧ s.status.isAlive = true ∧ s.waiters = 1
  | .gone => False

namespace Phase

variable {ph : Phase σ} {p : Pid} {j : Nat} {s s' : Slot}

theorem Fits.alive (h : ph.Fits p j s) : s.status.isAlive = true := by
  cases ph with
  | starting st | pausing st | active st | napping st =>
    rw [h.1]
    rfl
  | blocked st w => exact h.2.2.1
  | gone => exact h.elim

/-- What rests still fits. -/
theorem Fits.rests (h : ph.Fits p j s) (hr : s.Rests s') : ph.Fits p j s' := by
  cases ph with
  | starting st | pausing st | active st | napping st =>
    exact ⟨(hr.status h.2).trans h.1, hr.waiters.trans h.2⟩
  | blocked st w => exact ⟨h.1, h.2.1, hr.alive, hr.waiters.trans h.2.2.2⟩
  | gone => exact h

end Phase

/-- Nobody is left but the adopter. -/
def Table.Alone (t : Table) : Prop := ∀ i, i ≠ 0 → (t.slotAt i).inUse = false

/-- The caller that the main thread has blocked in a wait. -/
def MainPhase.callers : MainPhase μ → Multiset Waiter
  | .blocked _ w => {w}
  | _ => 0

/-- The main thread finds the adopter in the status that it expects, and alone in the end, unless it
has given up. -/
def MainPhase.Fits (t : Table) : MainPhase μ → Prop
  | .directing _ | .collecting _ => (t.slotAt 0).status = .running ∧ (t.slotAt 0).waiters = 0
  | .blocked _ w => w.caller = ⟨0, t.adopter, .any⟩ ∧ (t.slotAt 0).waiters = 1
  | .joining _ | .ended (.ok _) => t.Alone
  | .ended (.error _) => True

namespace Program

/-- The bodies and the main thread make gentle requests only. -/
structure Gentle (prog : Program σ μ ν) : Prop where
  asks : ∀ p st r, prog.move p st = .ask (.call r) → r.isGentle = true
  leads : ∀ st r, prog.lead st = .call r → r.isGentle = true

variable (prog : Program σ μ ν)

/-- The code that a body in some state returns, or that of a crash. -/
def returns? (p : Pid) (st : σ) : Option ExitCode :=
  match prog.move p st with
  | .finish code => some code
  | .crash => some crashCode
  | .ask _ => none

/-! ## Turns of a thread -/

/-- A thread moves its process on to a status, and itself to another phase. -/
inductive Shifts (p : Pid) : Phase σ → Status → Phase σ → Prop
  | start {st : σ} : Shifts p (.starting st) .running (.active st)
  | nap {st : σ} (asks : prog.move p st = .ask .nap) : Shifts p (.active st) .sleeping (.napping st)
  | yield {st : σ} (asks : prog.move p st = .ask .yield) :
      Shifts p (.active st) .runnable (.pausing st)
  | rise {st : σ} : Shifts p (.napping st) .runnable (.pausing st)

/-- A thread enters a wait, or is woken in one. -/
inductive Waits (k : Kernel) (p : Pid) : Phase σ → σ → Target → Outcome Waiting → Prop
  | enter {st : σ} {target : Target} (asks : prog.move p st = .ask (.wait target)) :
      Waits k p (.active st) st target (k.wait p target)
  | woken {st : σ} {w : Waiter} (woken : k.isWoken w = true) :
      Waits k p (.blocked st w) st w.caller.target (k.resume w.caller)

/-- A body gets a reply, with the deed that was done, the kernel after it and the thread that was
started. -/
inductive Calls (k : Kernel) (p : Pid) :
    Phase σ → σ → Option Deed → Kernel → List (Thread σ) → Reply → Prop
  | self {st : σ} (asks : prog.move p st = .ask .self) :
      Calls k p (.active st) st none k [] (.ok (.pid p))
  | forked {st child : σ} {q : Pid} (asks : prog.move p st = .ask (.fork child))
      (ok : (k.fork p).result = .ok q) :
      Calls k p (.active st) st (some (.born q)) (k.fork p).kernel [⟨q, .starting child⟩]
        (.ok (.pid q))
  | full {st child : σ} (asks : prog.move p st = .ask (.fork child))
      (full : (k.fork p).result = .error (.refused .tableFull)) :
      Calls k p (.active st) st none k [] (.error .tableFull)
  | collected {ph : Phase σ} {st : σ} {target : Target} {o : Outcome Waiting} {q : Pid}
      {code : ExitCode} (waits : prog.Waits k p ph st target o) (ok : o.result = .ok (.collected q code)) :
      Calls k p ph st (some (.collected p q code)) o.kernel [] (.ok (.collected (some (q, code))))
  | refused {ph : Phase σ} {st : σ} {target : Target} {o : Outcome Waiting} {why : Refusal}
      (waits : prog.Waits k p ph st target o) (error : o.result = .error (.refused why)) :
      Calls k p ph st none o.kernel [] (.error why)
  | served {st : σ} {r : Request} {a : Answer} (asks : prog.move p st = .ask (.call r))
      (ok : (k.serve r).result = .ok a) :
      Calls k p (.active st) st none (k.serve r).kernel [] (.ok a)
  | denied {st : σ} {r : Request} {why : Refusal} (asks : prog.move p st = .ask (.call r))
      (error : (k.serve r).result = .error (.refused why)) :
      Calls k p (.active st) st none (k.serve r).kernel [] (.error why)
  | awake {st : σ} (ok : (k.transition p .running).result = .ok ()) :
      Calls k p (.pausing st) st none (k.transition p .running).kernel [] (.ok .done)

/-- A turn of a thread: from a phase to a deed, a kernel, the next phase, threads that were started,
and notes that were taken. -/
inductive Acts (k : Kernel) (p : Pid) :
    Phase σ → Option Deed → Kernel → Phase σ → List (Thread σ) → List ν → Prop
  | shift {ph ph' : Phase σ} {next : Status} (shifts : prog.Shifts p ph next ph')
      (ok : (k.transition p next).result = .ok ()) :
      Acts k p ph none (k.transition p next).kernel ph' [] []
  | hear {ph : Phase σ} {st : σ} {d : Option Deed} {k' : Kernel} {started : List (Thread σ)}
      {reply : Reply} (calls : prog.Calls k p ph st d k' started reply) :
      Acts k p ph d k' (.active (prog.hear p st reply).1) started (prog.hear p st reply).2
  | sleep {ph : Phase σ} {st : σ} {target : Target} {o : Outcome Waiting} {w : Waiter}
      (waits : prog.Waits k p ph st target o) (ok : o.result = .ok (.asleep w)) :
      Acts k p ph none o.kernel (.blocked st w) [] []
  | finish {st : σ} {code : ExitCode} (returns : prog.returns? p st = some code)
      (ok : (k.exit p code).result = .ok ()) :
      Acts k p (.active st) (some (.ended p code)) (k.exit p code).kernel .gone [] []

/-! ## Turns of the main thread -/

/-- The main thread enters a wait for the adopter's children, or is woken in one. -/
inductive Gathers (k : Kernel) : MainPhase μ → List (Pid × ExitCode) → Outcome Waiting → Prop
  | enter {reaped : List (Pid × ExitCode)} :
      Gathers k (.collecting reaped) reaped (k.wait k.table.adopter .any)
  | woken {reaped : List (Pid × ExitCode)} {w : Waiter} (woken : k.isWoken w = true) :
      Gathers k (.blocked reaped w) reaped (k.resume w.caller)

/-- A turn of the main thread. It concludes only when all threads are gone. -/
inductive Leads (k : Kernel) (allGone : Prop) :
    MainPhase μ → Option Deed → Kernel → MainPhase μ → List (Thread σ) → List ν → Prop
  | begin {st : μ} (leads : prog.lead st = .finish) :
      Leads k allGone (.directing st) none k (.collecting []) [] []
  | fail {st : μ} {failure : Failure} (leads : prog.lead st = .fail failure) :
      Leads k allGone (.directing st) none k (.ended (.error failure)) [] []
  | spawned {st : μ} {parent q : Pid} {child : σ} (leads : prog.lead st = .spawn parent child)
      (ok : (k.create parent defaultImage).result = .ok q) :
      Leads k allGone (.directing st) (some (.born q)) (k.create parent defaultImage).kernel
        (.directing (prog.heed st (.ok (.pid q))).1) [⟨q, .starting child⟩]
        (prog.heed st (.ok (.pid q))).2
  | refused {st : μ} {parent : Pid} {child : σ} {why : Refusal}
      (leads : prog.lead st = .spawn parent child)
      (error : (k.create parent defaultImage).result = .error (.refused why)) :
      Leads k allGone (.directing st) none (k.create parent defaultImage).kernel
        (.directing (prog.heed st (.error why)).1) [] (prog.heed st (.error why)).2
  | served {st : μ} {r : Request} {a : Answer} (leads : prog.lead st = .call r)
      (ok : (k.serve r).result = .ok a) :
      Leads k allGone (.directing st) none (k.serve r).kernel
        (.directing (prog.heed st (.ok a)).1) [] (prog.heed st (.ok a)).2
  | denied {st : μ} {r : Request} {why : Refusal} (leads : prog.lead st = .call r)
      (error : (k.serve r).result = .error (.refused why)) :
      Leads k allGone (.directing st) none (k.serve r).kernel
        (.directing (prog.heed st (.error why)).1) [] (prog.heed st (.error why)).2
  | collect {mp : MainPhase μ} {reaped : List (Pid × ExitCode)} {o : Outcome Waiting} {q : Pid}
      {code : ExitCode} (gathers : Gathers k mp reaped o)
      (ok : o.result = .ok (.collected q code)) :
      Leads k allGone mp (some (.collected k.table.adopter q code)) o.kernel
        (.collecting (reaped ++ [(q, code)])) [] []
  | sleep {mp : MainPhase μ} {reaped : List (Pid × ExitCode)} {o : Outcome Waiting} {w : Waiter}
      (gathers : Gathers k mp reaped o) (ok : o.result = .ok (.asleep w)) :
      Leads k allGone mp none o.kernel (.blocked reaped w) [] []
  | join {mp : MainPhase μ} {reaped : List (Pid × ExitCode)} {o : Outcome Waiting}
      (gathers : Gathers k mp reaped o) (error : o.result = .error (.refused .noChildren)) :
      Leads k allGone mp none o.kernel (.joining reaped) [] []
  | conclude {reaped : List (Pid × ExitCode)} (done : allGone) :
      Leads k allGone (.joining reaped) none k (.ended (Machine.conclude k reaped)) [] []

/-! ## What a turn does -/

variable {prog}

/-- What the next turn of a thread does to the processes, if anything. -/
def deed? (prog : Program σ μ ν) (k : Kernel) (p : Pid) : Phase σ → Option Deed
  | .active st =>
    match prog.move p st with
    | .finish code => (k.exit p code).result.toOption.map fun _ => .ended p code
    | .crash => (k.exit p crashCode).result.toOption.map fun _ => .ended p crashCode
    | .ask (.fork _) => (k.fork p).result.toOption.map .born
    | .ask (.wait target) => (k.wait p target).deed? p
    | .ask (.call r) => (k.serve r).result.toOption.bind r.deed?
    | .ask _ => none
  | .blocked _ w => if k.isWoken w then (k.resume w.caller).deed? w.caller.parent else none
  | _ => none

/-- What the next turn of the main thread does to the processes, if anything. -/
def mainDeed? (prog : Program σ μ ν) (k : Kernel) : MainPhase μ → Option Deed
  | .directing st =>
    match prog.lead st with
    | .spawn parent _ => (k.create parent defaultImage).result.toOption.map .born
    | .call r => (k.serve r).result.toOption.bind r.deed?
    | _ => none
  | .collecting _ => (k.wait k.table.adopter .any).deed? k.table.adopter
  | .blocked _ w => if k.isWoken w then (k.resume w.caller).deed? w.caller.parent else none
  | _ => none

end Program

namespace Machine

variable {prog : Program σ μ ν} {m m' : Machine σ μ ν} {i j : Nat} {p : Pid} {ph : Phase σ}

/-- One machine leads to another, with a given kernel, main thread and threads, and more notes. -/
structure Goes (m m' : Machine σ μ ν) (k : Kernel) (main : MainPhase μ)
    (threads : List (Thread σ)) (notes : List ν) : Prop where
  kernel : m'.kernel = k
  main : m'.main = main
  threads : m'.threads = threads
  notes : m'.notes.toList = m.notes.toList ++ notes

theorem goes_reply (m o : Machine σ μ ν) (ho : o.notes = m.notes) (i : Nat) (p : Pid) (st : σ)
    (r : Reply) : m.Goes (o.reply prog i p st r) o.kernel o.main
      (o.threads.set i ⟨p, .active (prog.hear p st r).1⟩) (prog.hear p st r).2 := by
  refine ⟨rfl, rfl, rfl, ?_⟩
  simp only [reply, setPhase, ho, Array.toList_appendList]

theorem goes_hear_ok (m o : Machine σ μ ν) (ho : o.notes = m.notes) (i : Nat) (p : Pid) (st : σ)
    (a : Answer) : m.Goes (o.hear prog i p st (.ok a)) o.kernel o.main
      (o.threads.set i ⟨p, .active (prog.hear p st (.ok a)).1⟩) (prog.hear p st (.ok a)).2 :=
  goes_reply m o ho i p st (.ok a)

theorem goes_hear_refused (m o : Machine σ μ ν) (ho : o.notes = m.notes) (i : Nat) (p : Pid) (st : σ)
    (why : Refusal) : m.Goes (o.hear prog i p st (.error (.refused why))) o.kernel o.main
      (o.threads.set i ⟨p, .active (prog.hear p st (.error why)).1⟩)
      (prog.hear p st (.error why)).2 :=
  goes_reply m o ho i p st (.error why)

theorem goes_exit {code : ExitCode} (hok : (m.kernel.exit p code).result = .ok ()) :
    m.Goes (m.exitThread i p code) (m.kernel.exit p code).kernel m.main
      (m.threads.set i ⟨p, .gone⟩) [] := by
  unfold exitThread
  simp only [hok]
  exact ⟨rfl, rfl, rfl, (List.append_nil _).symm⟩

/-- The thread of a process that is not the adopter stands on the slot of its process and finds what
it expects. The scene is that of the whole machine, with the thread's own caller set apart. -/
structure Seated (k : Kernel) (others : Multiset Waiter) (p : Pid) (j : Nat) (ph : Phase σ) :
    Prop where
  sound : Scene.Sound ⟨k, ph.callers + others, []⟩
  housed : ∀ i, (k.table.slotAt i).Housed
  other : j ≠ 0
  holds : (k.table.slotAt j).holds p = true
  fits : ph.Fits p j (k.table.slotAt j)

namespace Seated

variable {k : Kernel} {others : Multiset Waiter} {ph' : Phase σ} {next : Status} {st : σ}
  {target : Target} {o : Outcome Waiting}

theorem ne_adopter (h : Seated k others p j ph) : p ≠ k.table.adopter :=
  fun heq => h.other ((h.sound.table.eq_zero_iff h.holds).mpr heq)

/-- Each move of its process that a thread makes is next in the life of the process. -/
theorem shift (h : Seated k others p j ph) (hs : prog.Shifts p ph next ph') :
    next.isAlive = true ∧ (k.transition p next).result = .ok () ∧
      (k.transition p next).kernel.table =
        k.table.modifySlot j fun s => { s with status := next } := by
  have hfits := h.fits
  have halive : next.isAlive = true := by cases hs <;> rfl
  have hnext : (k.table.slotAt j).status.canBecome next = true := by
    cases hs with
    | start => rw [hfits.1]; rfl
    | nap _ => rw [hfits.1]; rfl
    | yield _ => rw [hfits.1]; rfl
    | rise => rw [hfits.1]; rfl
  exact ⟨halive, Kernel.transition_eq h.sound h.holds halive hnext⟩

theorem awake (h : Seated k others p j (.pausing st)) :
    (k.transition p .running).result = .ok () ∧ (k.transition p .running).kernel.table =
      k.table.modifySlot j fun s => { s with status := .running } := by
  refine Kernel.transition_eq h.sound h.holds rfl ?_
  show (k.table.slotAt j).status.canBecome .running = true
  rw [h.fits.1]
  rfl

theorem waits (h : Seated k others p j ph) (hw : prog.Waits k p ph st target o) :
    ∃ y, Kernel.Looks k ph.callers others j p o y target := by
  have hsound := h.sound
  cases hw with
  | @enter st target asks =>
    change Scene.Sound ⟨k, 0 + others, []⟩ at hsound
    rw [Multiset.zero_add] at hsound
    exact ⟨_, Kernel.looks_wait hsound target h.holds h.fits.1 h.fits.2⟩
  | @woken st w woken =>
    obtain ⟨hslot, hparent, halive, hone⟩ := h.fits
    exact ⟨_, Kernel.looks_resume hsound hslot hparent halive hone⟩

theorem fork (h : Seated k others p j (.active st)) :
    (∃ q, (k.fork p).result = .ok q) ∨ (k.fork p).result = .error (.refused .tableFull) :=
  Kernel.fork_housed (h.sound.table.slotOf?_of_holds h.holds) h.fits.1 (h.housed j)

theorem exit (h : Seated k others p j (.active st)) (code : ExitCode) :
    (k.exit p code).result = .ok () :=
  (Kernel.exit_running h.sound h.holds h.fits.1 h.other code).1

/-- A body that returns ends its process. -/
theorem finish (h : Seated k others p j (.active st)) {code : ExitCode}
    (hr : prog.returns? p st = some code) :
    prog.Acts k p (.active st) (prog.deed? k p (.active st)) (k.exit p code).kernel .gone [] [] := by
  have hok := h.exit code
  have hdeed : prog.deed? k p (.active st) = some (.ended p code) := by
    rw [Program.returns?] at hr
    rw [Program.deed?]
    cases hmove : prog.move p st with
    | ask ask =>
      rw [hmove] at hr
      cases hr
    | finish _ | crash =>
      rw [hmove] at hr
      cases hr
      simp only [hok, Except.toOption, Option.map_some]
  rw [hdeed]
  exact .finish hr hok

/-- A thread that moves its process on does nothing else. -/
theorem moveOn (h : Seated m.kernel others p j ph) (hs : prog.Shifts p ph next ph') (st : σ) :
    ∃ k' ph'' started notes, prog.Acts m.kernel p ph none k' ph'' started notes ∧
      m.Goes (m.shift prog i p st next (some ph')) k' m.main
        ((m.threads ++ started).set i ⟨p, ph''⟩) notes := by
  have hok := (h.shift hs).2.1
  refine ⟨_, ph', [], [], .shift hs hok, ?_⟩
  unfold Machine.shift
  simp only [hok, List.append_nil]
  exact ⟨rfl, rfl, rfl, (List.append_nil _).symm⟩

/-- What a thread hears from a wait, or that it falls asleep in it. -/
theorem hearWait (h : Seated m.kernel others p j ph) (hw : prog.Waits m.kernel p ph st target o) :
    ∃ k' ph' notes, prog.Acts m.kernel p ph (o.deed? p) k' ph' [] notes ∧
      m.Goes (m.hearWait prog i p st o) k' m.main (m.threads.set i ⟨p, ph'⟩) notes := by
  obtain ⟨y, hlooks⟩ := h.waits hw
  let heard := m.after (.process p) o
  unfold Machine.hearWait Outcome.deed?
  rcases hlooks.answered with ⟨w, hr⟩ | ⟨q, code, hr⟩ | ⟨why, hr⟩
  · simp only [hr]
    exact ⟨_, _, _, .sleep hw hr, rfl, rfl, rfl, (List.append_nil _).symm⟩
  · simp only [hr]
    exact ⟨_, _, _, .hear (.collected hw hr), goes_hear_ok m heard rfl i p st _⟩
  · simp only [hr]
    exact ⟨_, _, _, .hear (.refused hw hr), goes_hear_refused m heard rfl i p st why⟩

theorem grant (h : Seated m.kernel others p j (.active st)) (hg : prog.Gentle) {ask : Ask σ}
    (ha : prog.move p st = .ask ask) :
    ∃ k' ph' started notes,
      prog.Acts m.kernel p (.active st) (prog.deed? m.kernel p (.active st)) k' ph' started notes ∧
      m.Goes (m.grant prog i p st ask) k' m.main ((m.threads ++ started).set i ⟨p, ph'⟩) notes := by
  cases ask with
  | self =>
    have hdeed : prog.deed? m.kernel p (.active st) = none := by simp only [Program.deed?, ha]
    rw [hdeed]
    refine ⟨_, _, [], _, .hear (.self ha), ?_⟩
    rw [List.append_nil]
    exact goes_hear_ok m m rfl i p st _
  | fork child =>
    have hdeed : prog.deed? m.kernel p (.active st) =
        (m.kernel.fork p).result.toOption.map .born := by simp only [Program.deed?, ha]
    rw [hdeed]
    unfold Machine.grant
    rcases h.fork with ⟨q, hr⟩ | hr
    · simp only [hr]
      exact ⟨_, _, _, _, .hear (.forked ha hr),
        goes_hear_ok m ((m.after (.process p) (m.kernel.fork p)).launch q child) rfl i p st _⟩
    · simp only [hr]
      have hgoes : m.Goes ((m.after (.process p) (m.kernel.fork p)).hear prog i p st _) _ _ _ _ :=
        goes_hear_refused m (m.after (.process p) (m.kernel.fork p)) rfl i p st .tableFull
      have hkernel : (m.after (.process p) (m.kernel.fork p)).kernel = m.kernel :=
        Kernel.atomic_fork _ hr
      rw [hkernel] at hgoes
      refine ⟨_, _, [], _, .hear (.full ha hr), ?_⟩
      rw [List.append_nil]
      exact hgoes
  | wait target =>
    have hdeed : prog.deed? m.kernel p (.active st) = (m.kernel.wait p target).deed? p := by
      simp only [Program.deed?, ha]
    rw [hdeed]
    obtain ⟨k', ph', notes, hacts, hgoes⟩ := h.hearWait (i := i) (.enter ha)
    refine ⟨k', ph', [], notes, hacts, ?_⟩
    rw [List.append_nil]
    exact hgoes
  | nap =>
    have hdeed : prog.deed? m.kernel p (.active st) = none := by simp only [Program.deed?, ha]
    rw [hdeed]
    exact h.moveOn (.nap ha) st
  | yield =>
    have hdeed : prog.deed? m.kernel p (.active st) = none := by simp only [Program.deed?, ha]
    rw [hdeed]
    exact h.moveOn (.yield ha) st
  | call r =>
    have hdeed : prog.deed? m.kernel p (.active st) =
        (m.kernel.serve r).result.toOption.bind r.deed? := by simp only [Program.deed?, ha]
    rw [hdeed]
    unfold Machine.grant
    rcases (Kernel.serve_gentle (k := m.kernel) (hg.asks p st r ha)).1 with ⟨a, hr, hnone⟩ | ⟨why, hr⟩
    · simp only [hr, Except.toOption, Option.bind_some, hnone]
      refine ⟨_, _, [], _, .hear (.served ha hr), ?_⟩
      rw [List.append_nil]
      exact goes_hear_ok m (m.after (.process p) (m.kernel.serve r)) rfl i p st a
    · simp only [hr, Except.toOption, Option.bind_none]
      refine ⟨_, _, [], _, .hear (.denied ha hr), ?_⟩
      rw [List.append_nil]
      exact goes_hear_refused m (m.after (.process p) (m.kernel.serve r)) rfl i p st why

/-- Each turn of a seated thread is one of the four things. -/
theorem step (h : Seated m.kernel others p j ph) (hg : prog.Gentle)
    (hi : m.threads[i]? = some ⟨p, ph⟩) (hm : m.stepThread prog i = some m') :
    ∃ k' ph' started notes,
      prog.Acts m.kernel p ph (prog.deed? m.kernel p ph) k' ph' started notes ∧
      m.Goes m' k' m.main ((m.threads ++ started).set i ⟨p, ph'⟩) notes := by
  unfold stepThread at hm
  rw [hi] at hm
  simp only at hm
  cases ph with
  | gone => cases hm
  | starting st =>
    have hok := (h.shift (.start : prog.Shifts ..)).2.1
    simp only [hok] at hm
    cases hm
    refine ⟨_, _, [], [], .shift .start hok, ?_⟩
    rw [List.append_nil]
    exact ⟨rfl, rfl, rfl, (List.append_nil _).symm⟩
  | napping st =>
    cases hm
    exact h.moveOn .rise st
  | pausing st =>
    cases hm
    refine ⟨_, _, [], _, .hear (.awake h.awake.1), ?_⟩
    unfold Machine.shift
    simp only [h.awake.1, List.append_nil]
    exact goes_hear_ok m (m.after (.process p) (m.kernel.transition p .running)) rfl i p st .done
  | blocked st w =>
    simp only at hm
    split at hm
    · rename_i hwoken
      cases hm
      obtain ⟨k', ph', notes, hacts, hgoes⟩ := h.hearWait (i := i) (.woken hwoken)
      refine ⟨k', ph', [], notes, ?_, ?_⟩
      · rw [Program.deed?, if_pos hwoken, h.fits.2.1]
        exact hacts
      · rw [List.append_nil]
        exact hgoes
    · cases hm
  | active st =>
    simp only at hm
    cases hmove : prog.move p st with
    | finish code =>
      rw [hmove] at hm
      cases hm
      refine ⟨_, .gone, [], [], h.finish (by rw [Program.returns?, hmove]), ?_⟩
      rw [List.append_nil]
      exact goes_exit (h.exit code)
    | crash =>
      rw [hmove] at hm
      cases hm
      refine ⟨_, .gone, [], [], h.finish (by rw [Program.returns?, hmove]), ?_⟩
      rw [List.append_nil]
      have hgoes := goes_exit (m := m.tell (.process p) (.crashed p)) (i := i) (h.exit crashCode)
      exact ⟨hgoes.kernel, hgoes.main, hgoes.threads, hgoes.notes⟩
    | ask ask =>
      rw [hmove] at hm
      cases hm
      exact h.grant hg hmove

end Seated

/-- Directing, the main thread may start a process or make a request. -/
theorem stepMain_directing (hg : prog.Gentle) {st : μ} (hm : m.main = .directing st)
    (hs : m.stepMain prog = some m') (allGone : Prop) :
    ∃ k' main' started notes,
      prog.Leads m.kernel allGone m.main (prog.mainDeed? m.kernel m.main) k' main' started notes ∧
      m.Goes m' k' main' (m.threads ++ started) notes := by
  unfold stepMain at hs
  rw [hm] at hs ⊢
  simp only at hs
  cases hlead : prog.lead st with
  | finish =>
    rw [hlead] at hs
    cases hs
    have hdeed : prog.mainDeed? m.kernel (.directing st) = none := by
      simp only [Program.mainDeed?, hlead]
    rw [hdeed]
    exact ⟨_, _, [], [], .begin hlead, rfl, rfl, (List.append_nil _).symm, (List.append_nil _).symm⟩
  | fail failure =>
    rw [hlead] at hs
    cases hs
    have hdeed : prog.mainDeed? m.kernel (.directing st) = none := by
      simp only [Program.mainDeed?, hlead]
    rw [hdeed]
    exact ⟨_, _, [], [], .fail hlead, rfl, rfl, (List.append_nil _).symm, (List.append_nil _).symm⟩
  | spawn parent child =>
    rw [hlead] at hs
    have hdeed : prog.mainDeed? m.kernel (.directing st) =
        (m.kernel.create parent defaultImage).result.toOption.map .born := by
      simp only [Program.mainDeed?, hlead]
    rw [hdeed]
    rcases m.kernel.create_default parent with ⟨q, hr⟩ | ⟨why, hr⟩
    · simp only [hr] at hs
      cases hs
      rw [hr]
      exact ⟨_, _, _, _, .spawned hlead hr, rfl, rfl, rfl, by
        simp only [heed, Machine.direct, launch, after, Array.toList_appendList]⟩
    · simp only [hr] at hs
      cases hs
      rw [hr]
      exact ⟨_, _, [], _, .refused hlead hr, rfl, rfl, (List.append_nil _).symm, by
        simp only [heed, Machine.direct, after, Array.toList_appendList]⟩
  | call r =>
    rw [hlead] at hs
    have hdeed : prog.mainDeed? m.kernel (.directing st) =
        (m.kernel.serve r).result.toOption.bind r.deed? := by
      simp only [Program.mainDeed?, hlead]
    rw [hdeed]
    rcases (Kernel.serve_gentle (k := m.kernel) (hg.leads st r hlead)).1 with
      ⟨a, hr, hnone⟩ | ⟨why, hr⟩
    · simp only [hr] at hs
      cases hs
      simp only [hr, Except.toOption, Option.bind_some, hnone]
      exact ⟨_, _, [], _, .served hlead hr, rfl, rfl, (List.append_nil _).symm, by
        simp only [heed, Machine.direct, after, Array.toList_appendList]⟩
    · simp only [hr] at hs
      cases hs
      simp only [hr, Except.toOption, Option.bind_none]
      exact ⟨_, _, [], _, .denied hlead hr, rfl, rfl, (List.append_nil _).symm, by
        simp only [heed, Machine.direct, after, Array.toList_appendList]⟩

/-- The main thread finds the adopter as it expects. The scene is that of the whole machine, with
the caller of the main thread set apart. -/
structure Presides (k : Kernel) (others : Multiset Waiter) (mp : MainPhase μ) : Prop where
  sound : Scene.Sound ⟨k, mp.callers + others, []⟩
  housed : ∀ i, (k.table.slotAt i).Housed
  fits : mp.Fits k.table

namespace Presides

variable {k : Kernel} {others : Multiset Waiter} {mp : MainPhase μ}
  {reaped : List (Pid × ExitCode)} {o : Outcome Waiting}

theorem gathers (h : Presides k others mp) (hg : Program.Gathers k mp reaped o) :
    ∃ y, Kernel.Looks k mp.callers others 0 k.table.adopter o y .any := by
  have hsound := h.sound
  have hadopter := hsound.table.adopter_holds
  cases hg with
  | enter =>
    change Scene.Sound ⟨k, 0 + others, []⟩ at hsound
    rw [Multiset.zero_add] at hsound
    exact ⟨_, Kernel.looks_wait hsound .any hadopter h.fits.1 h.fits.2⟩
  | @woken reaped w woken =>
    obtain ⟨hcaller, hone⟩ := h.fits
    have hlooks := Kernel.looks_resume (j := 0) (p := k.table.adopter) hsound (by rw [hcaller])
      (by rw [hcaller]) hsound.table.adopter.alive hone
    rw [hcaller] at hlooks
    rw [hcaller]
    exact ⟨_, hlooks⟩

/-- The adopter collects a child, falls asleep, or has no children. -/
theorem answered (h : Presides k others mp) (hg : Program.Gathers k mp reaped o) :
    (∃ w, o.result = .ok (.asleep w)) ∨ (∃ q code, o.result = .ok (.collected q code)) ∨
      o.result = .error (.refused .noChildren) ∧
        ∀ i, (o.kernel.table.slotAt i).isChildOf o.kernel.table.adopter = false := by
  obtain ⟨y, hlooks⟩ := h.gathers hg
  have hadopter : y.table.adopter = k.table.adopter := hlooks.moves.continues.adopter
  rw [hlooks.outcome]
  rcases Kernel.look_spec hlooks.sound ⟨0, k.table.adopter, .any⟩ with
    ⟨hkilled, -⟩ | ⟨-, ⟨hnone, hr⟩ | ⟨i, q, code, -, hr⟩ | ⟨-, hr⟩⟩
  · rw [hlooks.sound.table.adopter.unkilled] at hkilled
    cases hkilled
  · rw [hr]
    refine .inr (.inr ⟨rfl, fun i => ?_⟩)
    show (y.table.slotAt i).isChildOf y.table.adopter = false
    rw [hadopter]
    exact hlooks.sound.table.childless hnone i
  · rw [hr]
    exact .inr (.inl ⟨q, code, rfl⟩)
  · rw [hr]
    exact .inl ⟨_, rfl⟩

theorem gather (h : Presides m.kernel others m.main)
    (hg : Program.Gathers m.kernel m.main reaped o) (prog : Program σ μ ν) (allGone : Prop) :
    ∃ k' main', prog.Leads m.kernel allGone m.main (o.deed? m.kernel.table.adopter) k' main' [] [] ∧
      m.Goes (m.gather reaped o) k' main' m.threads [] := by
  unfold Machine.gather Outcome.deed?
  rcases h.answered hg with ⟨w, hr⟩ | ⟨q, code, hr⟩ | ⟨hr, -⟩
  · simp only [hr]
    exact ⟨_, _, .sleep hg hr, rfl, rfl, rfl, (List.append_nil _).symm⟩
  · simp only [hr]
    exact ⟨_, _, .collect hg hr, rfl, rfl, rfl, (List.append_nil _).symm⟩
  · simp only [hr]
    exact ⟨_, _, .join hg hr, rfl, rfl, rfl, (List.append_nil _).symm⟩

/-- Each turn of the main thread directs, collects for the adopter, or concludes. -/
theorem step (h : Presides m.kernel others m.main) (hg : prog.Gentle)
    (hs : m.stepMain prog = some m') :
    ∃ k' main' started notes,
      prog.Leads m.kernel (∀ t ∈ m.threads, t.isGone = true) m.main
        (prog.mainDeed? m.kernel m.main) k' main' started notes ∧
      m.Goes m' k' main' (m.threads ++ started) notes := by
  cases hm : m.main with
  | directing st =>
    rw [← hm]
    exact stepMain_directing hg hm hs _
  | collecting reaped =>
    have hgathers : Program.Gathers m.kernel m.main reaped
        (m.kernel.wait m.kernel.table.adopter .any) := by
      rw [hm]
      exact .enter
    obtain ⟨k', main', hleads, hgoes⟩ := h.gather hgathers prog (∀ t ∈ m.threads, t.isGone = true)
    unfold stepMain at hs
    rw [hm] at hs hleads
    simp only at hs
    obtain rfl := Option.some.inj hs
    refine ⟨k', main', [], [], hleads, ?_⟩
    rw [List.append_nil]
    exact hgoes
  | blocked reaped w =>
    unfold stepMain at hs
    rw [hm] at hs
    simp only at hs
    split at hs
    · rename_i hwoken
      obtain rfl := Option.some.inj hs
      have hgathers : Program.Gathers m.kernel m.main reaped (m.kernel.resume w.caller) := by
        rw [hm]
        exact .woken hwoken
      obtain ⟨k', main', hleads, hgoes⟩ := h.gather hgathers prog (∀ t ∈ m.threads, t.isGone = true)
      have hfits := h.fits
      rw [hm] at hleads hfits
      have hparent : w.caller.parent = m.kernel.table.adopter := by rw [hfits.1]
      refine ⟨k', main', [], [], ?_, ?_⟩
      · rw [Program.mainDeed?, if_pos hwoken, hparent]
        exact hleads
      · rw [List.append_nil]
        exact hgoes
    · cases hs
  | joining reaped =>
    unfold stepMain at hs
    rw [hm] at hs
    simp only at hs
    split at hs
    · rename_i hall
      cases hs
      exact ⟨_, _, [], [], .conclude (List.all_eq_true.mp hall), rfl, rfl,
        (List.append_nil _).symm, (List.append_nil _).symm⟩
    · cases hs
  | ended verdict =>
    unfold stepMain at hs
    rw [hm] at hs
    cases hs

end Presides

end Machine

end Lifecycle
