import Lifecycle.Proofs.Kernel.Collection
import Lifecycle.Proofs.Kernel.Tenancies
import Lifecycle.Proofs.Threads.Runs
/-!
# Turns over a roster

What the next turn of a thread comes down to is settled by its phase and by what its body asks for;
only a fork depends on the room in the table. A main thread that has started everybody collects for
the adopter. Where no body waits for children, nobody is blocked but the main thread, and the roster
settles what it can come to: it collects the first zombie of the adopter's in slot order, it goes on
waiting, or it learns that the adopter has no children.
-/

namespace Lifecycle

variable {σ μ ν : Type}

namespace Program

variable {prog : Program σ μ ν} {k k' : Kernel} {others : Multiset Waiter} {p q : Pid} {j : Nat}
  {ph ph₁ ph' : Phase σ} {st : σ} {d : Option Deed} {started : List (Thread σ)} {notes : List ν}
  {next : Status}

/-! ## Turns of a thread -/

/-- A thread that moves its process on does nothing else. -/
theorem Shifts.acts (hs : prog.Shifts p ph next ph₁)
    (ha : prog.Acts k p ph d k' ph' started notes) :
    d = none ∧ ph' = ph₁ ∧ started = [] ∧ notes = [] := by
  cases ha with
  | shift shifts ok =>
    refine ⟨rfl, ?_, rfl, rfl⟩
    cases hs with
    | start | rise =>
      cases shifts
      rfl
    | nap asks =>
      cases shifts with
      | nap asks' => rfl
      | yield asks' =>
        rw [asks] at asks'
        cases asks'
    | yield asks =>
      cases shifts with
      | nap asks' =>
        rw [asks] at asks'
        cases asks'
      | yield asks' => rfl
  | hear calls =>
    cases hs with
    | start | rise =>
      cases calls with
      | collected waits _ | refused waits _ => cases waits
    | nap asks | yield asks =>
      cases calls with
      | self asks' | forked asks' _ | full asks' _ | served asks' _ | denied asks' _ =>
        rw [asks] at asks'
        cases asks'
      | collected waits _ | refused waits _ =>
        cases waits with
        | enter asks' =>
          rw [asks] at asks'
          cases asks'
  | sleep waits ok =>
    cases hs with
    | start | rise => cases waits
    | nap asks | yield asks =>
      cases waits with
      | enter asks' =>
        rw [asks] at asks'
        cases asks'
  | finish returns ok =>
    cases hs with
    | nap asks | yield asks =>
      rw [returns?_of_ask asks] at returns
      cases returns

/-- A thread that goes on after a pause hears that it was granted. -/
theorem Acts.of_pausing (ha : prog.Acts k p (.pausing st) d k' ph' started notes) :
    d = none ∧ ph' = .active (prog.hear p st (.ok .done)).1 ∧ started = [] ∧
      notes = (prog.hear p st (.ok .done)).2 := by
  cases ha with
  | shift shifts ok => cases shifts
  | hear calls =>
    cases calls with
    | awake ok => exact ⟨rfl, rfl, rfl, rfl⟩
    | collected waits _ | refused waits _ => cases waits
  | sleep waits ok => cases waits

/-- A body that returns ends its process and does nothing else. -/
theorem Acts.of_returns {code : ExitCode} (hr : prog.returns? p st = some code)
    (ha : prog.Acts k p (.active st) d k' ph' started notes) :
    d = some (.ended p code) ∧ ph' = .gone ∧ started = [] ∧ notes = [] := by
  have hno : ∀ {ask : Ask σ}, prog.move p st = .ask ask → False := fun hasks => by
    rw [returns?_of_ask hasks] at hr
    cases hr
  cases ha with
  | shift shifts ok =>
    cases shifts with
    | nap asks | yield asks => exact (hno asks).elim
  | hear calls =>
    cases calls with
    | self asks | forked asks _ | full asks _ | served asks _ | denied asks _ =>
      exact (hno asks).elim
    | collected waits _ | refused waits _ =>
      cases waits with
      | enter asks => exact (hno asks).elim
  | sleep waits ok =>
    cases waits with
    | enter asks => exact (hno asks).elim
  | finish returns ok =>
    rw [hr] at returns
    obtain rfl := Option.some.inj returns
    exact ⟨rfl, rfl, rfl, rfl⟩

/-- Whoever asks for something other than sleep or a wait hears of it. -/
theorem Acts.of_asks {ask : Ask σ} (hasks : prog.move p st = .ask ask) (hnap : ask ≠ .nap)
    (hyield : ask ≠ .yield) (hwait : ∀ target, ask ≠ .wait target)
    (ha : prog.Acts k p (.active st) d k' ph' started notes) :
    ∃ reply, prog.Calls k p (.active st) st d k' started reply ∧
      ph' = .active (prog.hear p st reply).1 ∧ notes = (prog.hear p st reply).2 := by
  cases ha with
  | shift shifts ok =>
    cases shifts with
    | nap asks =>
      rw [hasks] at asks
      exact absurd (Move.ask.inj asks) hnap
    | yield asks =>
      rw [hasks] at asks
      exact absurd (Move.ask.inj asks) hyield
  | @hear _ st' _ _ _ reply calls =>
    obtain rfl : st' = st := by
      cases calls with
      | collected waits _ | refused waits _ =>
        cases waits
        rfl
      | _ => rfl
    exact ⟨reply, calls, rfl, rfl⟩
  | sleep waits ok =>
    cases waits with
    | enter asks =>
      rw [hasks] at asks
      exact absurd (Move.ask.inj asks) (hwait _)
  | finish returns ok =>
    rw [returns?_of_ask hasks] at returns
    cases returns

/-- A request that is answered changes what the body knows, and nothing else of the run. -/
theorem Acts.of_served {r : Request} {a : Answer} (hasks : prog.move p st = .ask (.call r))
    (hr : (k.serve r).result = .ok a) (ha : prog.Acts k p (.active st) d k' ph' started notes) :
    d = none ∧ ph' = .active (prog.hear p st (.ok a)).1 ∧ started = [] ∧
      notes = (prog.hear p st (.ok a)).2 := by
  obtain ⟨reply, hcalls, hph, hnotes⟩ := ha.of_asks hasks nofun nofun nofun
  cases hcalls with
  | served asks ok =>
    rw [hasks] at asks
    cases asks
    rw [hr] at ok
    obtain rfl := Except.ok.inj ok
    exact ⟨rfl, hph, rfl, hnotes⟩
  | denied asks error =>
    rw [hasks] at asks
    cases asks
    rw [hr] at error
    cases error
  | self asks | forked asks _ | full asks _ =>
    rw [hasks] at asks
    cases asks
  | collected waits _ | refused waits _ =>
    cases waits with
    | enter asks =>
      rw [hasks] at asks
      cases asks

/-- While there is room a body that asks for a child gets it. -/
theorem Acts.of_fork {child : σ} (hs : Machine.Seated k others p j (.active st))
    (hasks : prog.move p st = .ask (.fork child)) (hroom : k.table.freeSlot? ≠ none)
    (ha : prog.Acts k p (.active st) d k' ph' started notes) :
    ∃ q, d = some (.born q) ∧ k.table.Gains q p k'.table ∧
      ph' = .active (prog.hear p st (.ok (.pid q))).1 ∧ started = [⟨q, .starting child⟩] ∧
      notes = (prog.hear p st (.ok (.pid q))).2 := by
  obtain ⟨reply, hcalls, hph, hnotes⟩ := ha.of_asks hasks nofun nofun nofun
  cases hcalls with
  | forked asks ok =>
    rw [hasks] at asks
    cases asks
    exact ⟨_, rfl, Kernel.fork_gains hs.sound ok, hph, rfl, hnotes⟩
  | full asks full =>
    rcases Kernel.fork_running (hs.sound.table.slotOf?_of_holds hs.holds) hs.fits.1
      (hs.housed j) with ⟨q, hq⟩ | ⟨-, hfull⟩
    · change (k.fork p).result = _ at hq
      rw [full] at hq
      cases hq
    · exact absurd hfull hroom
  | self asks | served asks _ | denied asks _ =>
    rw [hasks] at asks
    cases asks
  | collected waits _ | refused waits _ =>
    cases waits with
    | enter asks =>
      rw [hasks] at asks
      cases asks

/-- No body ever waits for children. -/
def Unwaiting (prog : Program σ μ ν) : Prop :=
  ∀ p st target, prog.move p st ≠ .ask (.wait target)

/-- Where nobody waits, nobody is blocked. -/
theorem Acts.callers (hu : prog.Unwaiting) (hph : ph.callers = 0)
    (ha : prog.Acts k p ph d k' ph' started notes) :
    ph'.callers = 0 ∧ ∀ t ∈ started, t.phase.callers = 0 := by
  cases ha with
  | shift shifts ok =>
    refine ⟨?_, fun t ht => nomatch ht⟩
    cases shifts <;> rfl
  | hear calls =>
    refine ⟨rfl, ?_⟩
    cases calls with
    | forked asks ok =>
      intro t ht
      rw [List.mem_singleton.mp ht]
      rfl
    | _ => exact fun t ht => nomatch ht
  | sleep waits ok =>
    cases waits with
    | enter asks => exact absurd asks (hu _ _ _)
    | woken woken => exact absurd hph (Multiset.singleton_ne_zero _)
  | finish returns ok => exact ⟨rfl, fun t ht => nomatch ht⟩

/-! ## Turns of the main thread -/

variable {mp mp' : MainPhase μ} {allGone : Prop} {reaped : List (Pid × ExitCode)}
  {o : Outcome Waiting} {l : List Tenancy}

/-- While there is room the main thread can start a child of a living process. -/
theorem Leads.of_spawn {st : μ} {parent : Pid} {child : σ} {i : Nat}
    (hp : Machine.Presides k others (.directing st)) (hleads : prog.lead st = .spawn parent child)
    (halive : k.table.aliveSlot parent = .ok i) (hroom : k.table.freeSlot? ≠ none)
    (hl : prog.Leads k allGone (.directing st) d k' mp' started notes) :
    ∃ q, d = some (.born q) ∧ k.table.Gains q parent k'.table ∧
      mp' = .directing (prog.heed st (.ok (.pid q))).1 ∧ started = [⟨q, .starting child⟩] ∧
      notes = (prog.heed st (.ok (.pid q))).2 := by
  cases hl with
  | begin leads | fail leads | served leads _ | denied leads _ =>
    rw [hleads] at leads
    cases leads
  | spawned leads ok =>
    rw [hleads] at leads
    cases leads
    exact ⟨_, rfl, Kernel.create_gains hp.sound ok, rfl, rfl, rfl⟩
  | refused leads error =>
    rw [hleads] at leads
    cases leads
    rcases Kernel.create_alive halive with ⟨q, hq⟩ | ⟨-, hfull⟩
    · rw [error] at hq
      cases hq
    · exact absurd hfull hroom
  | collect gathers _ | sleep gathers _ | join gathers _ => cases gathers

/-- A thread that is started is not blocked. -/
theorem Leads.callers (hl : prog.Leads k allGone mp d k' mp' started notes) :
    ∀ t ∈ started, t.phase.callers = 0 := by
  cases hl with
  | spawned leads ok =>
    intro t ht
    rw [List.mem_singleton.mp ht]
    rfl
  | _ => exact fun t ht => nomatch ht

/-- The main thread collects for the adopter, or is about to. -/
inductive Awaits (prog : Program σ μ ν) : MainPhase μ → List (Pid × ExitCode) → Prop
  | directing {st : μ} (leads : prog.lead st = .finish) : Awaits prog (.directing st) []
  | collecting {reaped : List (Pid × ExitCode)} : Awaits prog (.collecting reaped) reaped
  | blocked {reaped : List (Pid × ExitCode)} {w : Waiter} :
      Awaits prog (.blocked reaped w) reaped

theorem Gathers.reaped_eq {reaped' : List (Pid × ExitCode)} (hg : Gathers k mp reaped o)
    (hm : prog.Awaits mp reaped') : reaped' = reaped := by
  cases hg <;> cases hm <;> rfl

end Program

/-- The first zombie of a parent in a roster. -/
structure Tenancy.First (l : List Tenancy) (parent : Pid) (i : Nat) (p : Pid) (code : ExitCode) :
    Prop where
  here : l[i]? = some (.dead p parent code)
  none_before : ∀ j < i, ∀ q last, l[j]? ≠ some (.dead q parent last)

/-- A look that collects has found the child. -/
theorem Kernel.Looks.find {k : Kernel} {mine others : Multiset Waiter} {j : Nat} {p q : Pid}
    {o : Outcome Waiting} {y : Scene} {target : Target} {code : ExitCode}
    (h : Kernel.Looks k mine others j p o y target) (hr : o.result = .ok (.collected q code)) :
    ∃ i, y.table.find p target = .found i q code := by
  have hwait : (y.kernel.wait p target).result = .ok (.collected q code) := by
    rw [Kernel.wait_eq_look h.sound h.holds h.alive, ← h.outcome, hr]
  have htry := (y.kernel.wait_tryWait p target).1
  rw [hwait] at htry
  exact ((Kernel.tryWait_found_iff h.sound).mp htry.symm).2

namespace Machine

namespace Presides

open Program

variable {prog : Program σ μ ν} {k k' : Kernel} {mp mp' : MainPhase μ}
  {reaped : List (Pid × ExitCode)} {o : Outcome Waiting} {l : List Tenancy} {d : Option Deed}
  {started : List (Thread σ)} {notes : List ν} {allGone : Prop}

/-- Where nobody else is blocked, the adopter collects the first zombie of its own. -/
theorem collected_first (h : Presides k 0 mp) (hg : Gathers k mp reaped o)
    (hr : k.table.Roster l) {q : Pid} {code : ExitCode} (ho : o.result = .ok (.collected q code)) :
    ∃ i, Tenancy.First l k.table.adopter i q code := by
  obtain ⟨y, hlooks⟩ := h.gathers hg
  have hy : y.table.Roster l := hlooks.moves.roster hr
  have hadopter : y.table.adopter = k.table.adopter := hlooks.moves.adopter
  have hquiet : ∀ i, (y.table.slotAt i).waiters = 0 := fun i => by
    rw [hlooks.sound.waiters, hlooks.blocked, Multiset.countP_zero]
  obtain ⟨i, hfind⟩ := hlooks.find ho
  obtain ⟨hremains, hbefore⟩ := Table.find_eq_found_iff.mp hfind
  obtain ⟨hmatching, -, hzombie, hcode⟩ := Slot.remains?_eq_some.mp hremains
  have hparent := Slot.parent_of_matching? hmatching
  have hpid := (Slot.holds_iff.mp (Slot.holds_of_matching? hmatching)).2
  have htenancy : (y.table.slotAt i).tenancy = .dead q k.table.adopter code := by
    rw [Slot.tenancy, hpid, hparent, hcode]
    rfl
  -- the adopter itself has not ended
  obtain ⟨n, rfl⟩ : ∃ n, i = n + 1 := by
    refine Nat.exists_eq_succ_of_ne_zero ?_
    rintro rfl
    rw [Slot.not_zombie_of_alive hlooks.sound.table.adopter.alive] at hzombie
    cases hzombie
  refine ⟨n, ?_, fun j hj p last hdead => ?_⟩
  · rw [hy, List.getD_eq_getElem?_getD] at htenancy
    cases hn : l[n]? with
    | none =>
      rw [hn] at htenancy
      cases htenancy
    | some tenancy =>
      rw [hn] at htenancy
      exact congrArg some htenancy
  · have hnone := hbefore (j + 1) (Nat.succ_lt_succ hj)
    rw [(hlooks.sound.table.slots (j + 1)).remains_of_dead (hy.slot hdead) (hquiet _) rfl] at hnone
    cases hnone

/-- A turn of a main thread that collects for the adopter, where nobody else is blocked. -/
theorem leads_awaits (h : Presides k 0 mp) (hg : prog.Gentle) (hm : prog.Awaits mp reaped)
    (hr : k.table.Roster l) (hl : prog.Leads k allGone mp d k' mp' started notes) :
    started = [] ∧ notes = [] ∧
      (d = none ∧ prog.Awaits mp' reaped ∨
      (∃ i q code, Tenancy.First l k.table.adopter i q code ∧
        d = some (.collected k.table.adopter q code) ∧
        prog.Awaits mp' (reaped ++ [(q, code)])) ∨
      d = none ∧ mp' = .joining reaped ∧ ∀ tenancy ∈ l, tenancy.parent ≠ some k.table.adopter) := by
  have heffect := (h.effect hg hl).1
  cases hl with
  | begin leads =>
    cases hm
    exact ⟨rfl, rfl, .inl ⟨rfl, .collecting⟩⟩
  | fail leads | spawned leads _ | refused leads _ | served leads _ | denied leads _ =>
    cases hm with
    | directing finishes =>
      rw [finishes] at leads
      cases leads
  | @collect _ reaped' o q code gathers ok =>
    obtain rfl := gathers.reaped_eq hm
    obtain ⟨i, hfirst⟩ := h.collected_first gathers hr ok
    exact ⟨rfl, rfl, .inr (.inl ⟨i, q, code, hfirst, rfl, .collecting⟩)⟩
  | sleep gathers ok =>
    obtain rfl := gathers.reaped_eq hm
    exact ⟨rfl, rfl, .inl ⟨rfl, .blocked⟩⟩
  | @join _ reaped' o gathers error =>
    obtain rfl := gathers.reaped_eq hm
    refine ⟨rfl, rfl, .inr (.inr ⟨rfl, rfl, fun tenancy hmem hparent => ?_⟩)⟩
    have ho : o.kernel.table.Roster l := heffect.moves.roster hr
    have hadopter : o.kernel.table.adopter = k.table.adopter := heffect.moves.adopter
    rcases h.answered gathers with ⟨w, hr'⟩ | ⟨q, code, hr'⟩ | ⟨-, hchildless⟩
    · rw [error] at hr'
      cases hr'
    · rw [error] at hr'
      cases hr'
    · obtain ⟨i, hi⟩ := List.getElem?_of_mem hmem
      have hslot : (o.kernel.table.slotAt (i + 1)).parent = some k.table.adopter :=
        (congrArg Tenancy.parent (ho.slot hi)).trans hparent
      have hsound := h.sound.moves heffect.moves
      have hchild := hchildless (i + 1)
      rw [hadopter, Bool.eq_false_iff, ne_eq, Slot.isChildOf_iff] at hchild
      exact hchild ⟨hsound.table.inUse_of_parent hslot, hslot⟩
  | conclude done => cases hm

end Presides

end Machine

end Lifecycle
