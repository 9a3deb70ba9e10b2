import Lifecycle.Proofs.Kernel.Kin
import Lifecycle.Proofs.Threads.Runs
import Lifecycle.Scenario.Concurrent
/-!
# Processes on their way through trees

Nobody is ever killed among the random trees, so a process that waits for its children is refused
only when it has none left. A turn of a process then forks its next child, finds the table full,
collects a child, learns that there is none, ends, or leaves things as they were; and the main
thread plants trees and collects for the adopter.
-/

namespace Lifecycle

namespace Scenario

namespace Concurrent

namespace Tree

mutual

/-- How many processes of a tree their parents collect: all children of those that collect. -/
def gathered : Tree → Nat
  | node children collects => (if collects then children.length else 0) + gatheredAll children

/-- How many processes of some trees their parents collect. -/
def gatheredAll : List Tree → Nat
  | [] => 0
  | t :: rest => t.gathered + gatheredAll rest

end

theorem size_eq (t : Tree) : t.size = sizes t.children + 1 := by
  cases t
  rw [size]
  rfl

theorem gathered_eq (t : Tree) :
    t.gathered = (if t.collects then t.children.length else 0) + gatheredAll t.children := by
  cases t
  rw [gathered]
  rfl

end Tree

/-- How many processes are still to come from a body. -/
def Body.left : Body → Nat
  | .growing _ children _ => Tree.sizes children
  | .failed => 0

/-- How many processes are still to be collected by a body that has some children, and by those that
are still to come from it. -/
def Body.due (kids : Nat) : Body → Nat
  | .growing _ children collects =>
    (if collects then kids + children.length else 0) + Tree.gatheredAll children
  | .failed => 0

end Concurrent

end Scenario

/-- The state of the body of a thread that is not gone. -/
def Phase.body? {σ : Type} : Phase σ → Option σ
  | .starting st | .active st | .napping st | .pausing st | .blocked st _ => some st
  | .gone => none

namespace Scenario

namespace Concurrent

open Machine Program

/-- A process grows or waits for any child. -/
def Grown : Phase Body → Prop
  | .starting b | .active b => b ≠ .failed
  | .blocked b w => (∃ depth, b = .growing depth [] true) ∧ w.caller.target = .any
  | .gone => True
  | .napping _ | .pausing _ => False

/-- What a turn of a process comes down to where nobody has been killed. -/
inductive Grows (k : Kernel) (p : Pid) :
    Phase Body → Option Deed → Kernel → Phase Body → List (Thread Body) → List Note → Prop
  | keep {ph ph' : Phase Body} {k' : Kernel} (same : ph'.body? = ph.body?) :
      Grows k p ph none k' ph' [] []
  | fork {depth : Nat} {child : Tree} {children : List Tree} {collects : Bool} {q : Pid}
      {k' : Kernel} (gains : k.table.Gains q p k'.table) :
      Grows k p (.active (.growing depth (child :: children) collects)) (some (.born q)) k'
        (.active (.growing depth children collects))
        [⟨q, .starting (.growing (depth + 1) child.children child.collects)⟩] [.spawned]
  | full {depth : Nat} {child : Tree} {children : List Tree} {collects : Bool}
      (full : k.table.freeSlot? = none) :
      Grows k p (.active (.growing depth (child :: children) collects)) none k
        (.active (.growing depth children collects)) [] [.exhausted]
  | collect {ph : Phase Body} {depth : Nat} {q : Pid} {code : ExitCode} {k' : Kernel}
      (body : ph.body? = some (.growing depth [] true)) :
      Grows k p ph (some (.collected p q code)) k' (.active (.growing depth [] true)) []
        [.collected]
  | leave {ph : Phase Body} {depth : Nat} {k' : Kernel}
      (body : ph.body? = some (.growing depth [] true)) (childless : k.table.kids p = 0) :
      Grows k p ph none k' (.active (.growing depth [] false)) [] []
  | finish {depth : Nat} {code : ExitCode} {k' : Kernel} :
      Grows k p (.active (.growing depth [] false)) (some (.ended p code)) k' .gone [] []

/-- The main thread plants or collects, and does not fail. -/
def Planted : MainPhase Director → Prop
  | .directing (.refused _) | .ended (.error _) => False
  | .directing (.planting _) | .collecting _ | .blocked _ _ | .joining _ | .ended (.ok _) => True

/-- The trees that are still to be planted. -/
def seedlings : MainPhase Director → List Tree
  | .directing (.planting trees) => trees
  | _ => []

/-- What a turn of the main thread comes down to. -/
inductive Plants (k : Kernel) : MainPhase Director → Option Deed → Kernel → MainPhase Director →
    List (Thread Body) → List Note → Prop
  | keep {mp mp' : MainPhase Director} {k' : Kernel} (reaped : mp'.reaped? = mp.reaped?)
      (bare : seedlings mp = []) (still : seedlings mp' = []) : Plants k mp none k' mp' [] []
  | plant {t : Tree} {trees : List Tree} {q : Pid} {k' : Kernel}
      (gains : k.table.Gains q k.table.adopter k'.table) :
      Plants k (.directing (.planting (t :: trees))) (some (.born q)) k'
        (.directing (.planting trees)) [⟨q, .starting (.growing 0 t.children t.collects)⟩]
        [.spawned]
  | full {t : Tree} {trees : List Tree} {k' : Kernel} (full : k.table.freeSlot? = none) :
      Plants k (.directing (.planting (t :: trees))) none k' (.directing (.planting trees)) []
        [.exhausted]
  | collect {mp : MainPhase Director} {reaped : List (Pid × ExitCode)} {q : Pid} {code : ExitCode}
      {k' : Kernel} (earlier : mp.reaped? = some reaped) (bare : seedlings mp = []) :
      Plants k mp (some (.collected k.table.adopter q code)) k' (.collecting (reaped ++ [(q, code)]))
        [] []

variable {a : Pid} {k k' : Kernel} {others : Multiset Waiter} {p : Pid} {j : Nat}
  {ph ph' : Phase Body} {b : Body} {d : Option Deed} {started : List (Thread Body)}
  {notes : List Note} {target : Target} {o : Outcome Waiting}

/-- A process asks for a child that comes from its tree, or waits for any child. -/
theorem move_ask {ask : Ask Body} (h : (program a).move p b = .ask ask) :
    (∃ depth child children collects, b = .growing depth (child :: children) collects ∧
      ask = .fork (.growing (depth + 1) child.children child.collects)) ∨
    ∃ depth, b = .growing depth [] true ∧ ask = .wait .any := by
  change move p b = _ at h
  unfold move at h
  split at h
  · cases h
    exact .inl ⟨_, _, _, _, rfl, rfl⟩
  · cases h
    exact .inr ⟨_, rfl, rfl⟩
  · cases h
  · cases h

theorem returns_growing {code : ExitCode} (hb : b ≠ .failed)
    (h : (program a).returns? p b = some code) : ∃ depth, b = .growing depth [] false := by
  cases b with
  | failed => exact absurd rfl hb
  | growing depth children collects =>
    cases children with
    | cons child children => cases h
    | nil =>
      cases collects with
      | true => cases h
      | false => exact ⟨depth, rfl⟩

theorem lead_ne_call {st : Director} (r : Request) : (program a).lead st ≠ .call r := by
  cases st with
  | refused why => nofun
  | planting trees => cases trees <;> nofun

/-- Nobody makes any requests. -/
theorem program_gentle (a : Pid) : (program a).Gentle where
  asks p st r h := by
    obtain ⟨_, _, _, _, -, hask⟩ | ⟨_, -, hask⟩ := move_ask h <;> cases hask
  leads st r h := absurd h (lead_ne_call r)

/-- Who waits has no children left to fork and waits for any child. -/
theorem waits_any (hg : Grown ph) (hw : (program a).Waits k p ph b target o) :
    ph.body? = some b ∧ target = .any ∧ ∃ depth, b = .growing depth [] true := by
  cases hw with
  | enter asks =>
    obtain ⟨_, _, _, _, -, hask⟩ | ⟨depth, rfl, hask⟩ := move_ask asks <;> cases hask
    exact ⟨rfl, rfl, depth, rfl⟩
  | woken woken => exact ⟨rfl, hg.2, hg.1⟩

/-- A thread that moves its process on has only just started. -/
theorem shifts_start {next : Status} (hg : Grown ph) (hs : (program a).Shifts p ph next ph') :
    ∃ b, ph = .starting b ∧ ph' = .active b := by
  cases hs with
  | start => exact ⟨_, rfl, rfl⟩
  | nap asks | yield asks =>
    obtain ⟨_, _, _, _, -, hask⟩ | ⟨_, -, hask⟩ := move_ask asks <;> cases hask
  | rise => exact hg.elim

theorem calls_grow {reply : Reply} (hs : Seated k others p j ph) (hu : k.table.Unmarked)
    (hg : Grown ph) (hc : (program a).Calls k p ph b d k' started reply) :
    Grows k p ph d k' (.active (hear p b reply).1) started (hear p b reply).2 ∧
      k'.table.Unmarked ∧ (hear p b reply).1 ≠ .failed := by
  cases hc with
  | self asks | served asks ok | denied asks error =>
    obtain ⟨_, _, _, _, -, hask⟩ | ⟨_, -, hask⟩ := move_ask asks <;> cases hask
  | forked asks ok =>
    have hgains := Kernel.fork_gains hs.sound ok
    obtain ⟨_, _, _, _, rfl, hask⟩ | ⟨_, -, hask⟩ := move_ask asks <;> cases hask
    exact ⟨.fork hgains, hu.gains hgains, nofun⟩
  | full asks full =>
    have hfull : k.table.freeSlot? = none := by
      rcases Kernel.fork_running (hs.sound.table.slotOf?_of_holds hs.holds) hs.fits.1
        (hs.housed j) with ⟨q, hq⟩ | ⟨-, hfull⟩
      · change (k.fork p).result = _ at hq
        rw [full] at hq
        cases hq
      · exact hfull
    obtain ⟨_, _, _, _, rfl, hask⟩ | ⟨_, -, hask⟩ := move_ask asks <;> cases hask
    exact ⟨.full hfull, hu, nofun⟩
  | collected waits ok =>
    obtain ⟨hbody, rfl, depth, rfl⟩ := waits_any hg waits
    obtain ⟨y, hlooks⟩ := hs.waits waits
    exact ⟨.collect hbody, hlooks.unmarked_after hu, nofun⟩
  | refused waits error =>
    obtain ⟨hbody, rfl, depth, rfl⟩ := waits_any hg waits
    obtain ⟨y, hlooks⟩ := hs.waits waits
    obtain ⟨rfl, hnone⟩ := hlooks.childless hu error
    have hkids : k.table.kids p = 0 := by
      have hcontinues : k.table.Continues y.table := hlooks.moves.continues
      rw [← hcontinues.kids p]
      exact Table.kids_eq_zero (hlooks.sound.table.childless hnone)
    exact ⟨.leave hbody hkids, hlooks.unmarked_after hu, nofun⟩
  | awake ok => exact hg.elim

/-- A turn of a process is one of those described, kills nobody, and lets the process grow on. -/
theorem acts_grow (hs : Seated k others p j ph) (hu : k.table.Unmarked) (hg : Grown ph)
    (ha : (program a).Acts k p ph d k' ph' started notes) :
    Grows k p ph d k' ph' started notes ∧ k'.table.Unmarked ∧ Grown ph' := by
  cases ha with
  | shift shifts ok =>
    obtain ⟨b, rfl, rfl⟩ := shifts_start hg shifts
    obtain ⟨-, -, htable⟩ := hs.shift shifts
    refine ⟨.keep rfl, ?_, hg⟩
    rw [htable]
    exact hu.modifySlot (Table.lt_capacity_of_holds hs.holds) rfl
  | hear calls => exact calls_grow hs hu hg calls
  | @sleep _ b target o w waits ok =>
    obtain ⟨hbody, rfl, hgrown⟩ := waits_any hg waits
    obtain ⟨y, hlooks⟩ := hs.waits waits
    have hcaller := (hlooks.asleep ok).2.1
    exact ⟨.keep hbody.symm, hlooks.unmarked_after hu, hgrown, by rw [hcaller]⟩
  | @finish b code returns ok =>
    obtain ⟨-, -, debts, hkernel⟩ := Kernel.exit_running hs.sound hs.holds hs.fits.1 hs.other code
    have hunmarked : (k.exit p code).kernel.table.Unmarked := by
      rw [hkernel]
      exact Kernel.unmarked_wakes debts (hu.fall hs.sound.ranked hs.holds)
    obtain ⟨depth, rfl⟩ := returns_growing hg returns
    exact ⟨.finish, hunmarked, trivial⟩

variable {mp mp' : MainPhase Director} {allGone : Prop} {reaped : List (Pid × ExitCode)}

theorem gathers_bare (hg : Gathers k mp reaped o) :
    mp.reaped? = some reaped ∧ seedlings mp = [] := by
  cases hg <;> exact ⟨rfl, rfl⟩

theorem lead_finish {st : Director} (hp : Planted (.directing st))
    (h : (program a).lead st = .finish) : st = .planting [] := by
  cases st with
  | refused why => exact hp.elim
  | planting trees =>
    cases trees with
    | nil => rfl
    | cons t trees => cases h

theorem lead_ne_fail {st : Director} (hp : Planted (.directing st)) (failure : Failure) :
    (program a).lead st ≠ .fail failure := by
  cases st with
  | refused why => exact hp.elim
  | planting trees => cases trees <;> nofun

theorem lead_spawn {st : Director} {parent : Pid} {child : Body}
    (h : (program a).lead st = .spawn parent child) :
    ∃ t trees, st = .planting (t :: trees) ∧ a = parent ∧
      Body.growing 0 t.children t.collects = child := by
  cases st with
  | refused why => cases h
  | planting trees =>
    cases trees with
    | nil => cases h
    | cons t trees =>
      cases h
      exact ⟨t, trees, rfl, rfl, rfl⟩

/-- A turn of the main thread is one of those described, kills nobody, and is no failure. -/
theorem leads_plant (h : Presides k others mp) (hu : k.table.Unmarked) (hp : Planted mp)
    (hl : (program k.table.adopter).Leads k allGone mp d k' mp' started notes) :
    Plants k mp d k' mp' started notes ∧ k'.table.Unmarked ∧ Planted mp' := by
  cases hl with
  | @begin st leads =>
    obtain rfl := lead_finish hp leads
    exact ⟨.keep rfl rfl rfl, hu, trivial⟩
  | @fail st failure leads => exact absurd leads (lead_ne_fail hp failure)
  | @spawned st parent q child leads ok =>
    obtain ⟨t, trees, rfl, rfl, rfl⟩ := lead_spawn leads
    have hgains := Kernel.create_gains h.sound ok
    exact ⟨.plant hgains, hu.gains hgains, trivial⟩
  | @refused st parent child why leads error =>
    obtain ⟨t, trees, rfl, rfl, rfl⟩ := lead_spawn leads
    have halive : k.table.aliveSlot k.table.adopter = .ok 0 :=
      h.sound.table.aliveSlot_of_holds h.sound.table.adopter_holds h.sound.table.adopter.alive
    have hkernel : (k.create k.table.adopter defaultImage).kernel = k :=
      Kernel.atomic_create _ error
    rcases Kernel.create_alive halive with ⟨q, hq⟩ | ⟨hfull, hfree⟩
    · rw [error] at hq
      cases hq
    · rw [error] at hfull
      cases hfull
      rw [hkernel]
      exact ⟨.full hfree, hu, trivial⟩
  | served leads ok | denied leads error =>
    exact absurd leads (lead_ne_call _)
  | collect gathers ok =>
    obtain ⟨hreaped, hbare⟩ := gathers_bare gathers
    obtain ⟨y, hlooks⟩ := h.gathers gathers
    exact ⟨.collect hreaped hbare, hlooks.unmarked_after hu, trivial⟩
  | sleep gathers ok =>
    obtain ⟨hreaped, hbare⟩ := gathers_bare gathers
    obtain ⟨y, hlooks⟩ := h.gathers gathers
    exact ⟨.keep hreaped.symm hbare rfl, hlooks.unmarked_after hu, trivial⟩
  | join gathers error =>
    obtain ⟨hreaped, hbare⟩ := gathers_bare gathers
    obtain ⟨y, hlooks⟩ := h.gathers gathers
    exact ⟨.keep hreaped.symm hbare rfl, hlooks.unmarked_after hu, trivial⟩
  | conclude done =>
    rw [h.conclude_eq]
    exact ⟨.keep rfl rfl rfl, hu, trivial⟩

end Concurrent

end Scenario

end Lifecycle
