import Lifecycle.Proofs.Scenario.Trees
import Mathlib.Algebra.GroupWithZero.Nat
/-!
# The count of a forest

Whatever the order of turns, every process of a forest is collected once, by its parent or by the
adopter. While the table has room for all trees, two sums do not change: the processes created and
those still to come from the bodies and the trees that are not planted, and the processes collected
by their parents and those that are due to be. A parent that waits has due what is left of its
children and what it has still to fork, and this neither grows nor shrinks when a child ends first
or a grandchild is handed to the adopter. So the counts of the report depend on the trees alone.
-/

namespace Lifecycle

namespace Scenario

namespace Concurrent

open Machine

variable {m m' : Machine Body Director Note} {k k' : Kernel} {p q r : Pid} {i : Nat}
  {ph ph' : Phase Body} {d : Option Deed} {started : List (Thread Body)} {notes : List Note}
  {mp mp' : MainPhase Director} {trees : List Tree}

/-! ## Forests in order -/

/-- An orderly machine in which nobody has been killed and everybody grows. -/
structure Thrives (m : Machine Body Director Note) : Prop where
  orderly : m.Orderly
  unmarked : m.kernel.table.Unmarked
  grown : ∀ t ∈ m.threads, Grown t.phase
  planted : Planted m.main

/-- What a turn comes down to in a forest. -/
inductive Turns (m : Machine Body Director Note) : Machine Body Director Note → Prop
  | pass : Turns m m
  | grow {i : Nat} {p : Pid} {ph ph' : Phase Body} {d : Option Deed} {k' : Kernel}
      {started : List (Thread Body)} {notes : List Note} {m' : Machine Body Director Note}
      (thread : m.threads[i]? = some ⟨p, ph⟩) (present : ph ≠ .gone)
      (grows : Grows m.kernel p ph d k' ph' started notes)
      (goes : m.Goes m' k' m.main ((m.threads ++ started).set i ⟨p, ph'⟩) notes)
      (moves : Scene.Moves m.scene d.toList m'.scene) : Turns m m'
  | plant {d : Option Deed} {k' : Kernel} {main' : MainPhase Director}
      {started : List (Thread Body)} {notes : List Note} {m' : Machine Body Director Note}
      (plants : Plants m.kernel m.main d k' main' started notes)
      (goes : m.Goes m' k' main' (m.threads ++ started) notes)
      (moves : Scene.Moves m.scene d.toList m'.scene) : Turns m m'

theorem Turns.capacity (h : Turns m m') :
    m'.kernel.table.capacity = m.kernel.table.capacity := by
  cases h with
  | pass => rfl
  | grow _ _ _ _ moves | plant _ _ moves => exact moves.capacity

theorem Grows.started_grown (h : Grows k p ph d k' ph' started notes) :
    ∀ t ∈ started, Grown t.phase := by
  cases h with
  | fork gains =>
    intro t ht
    rw [List.mem_singleton.mp ht]
    nofun
  | _ => exact fun t ht => by cases ht

theorem Plants.started_grown (h : Plants k mp d k' mp' started notes) :
    ∀ t ∈ started, Grown t.phase := by
  cases h with
  | plant gains =>
    intro t ht
    rw [List.mem_singleton.mp ht]
    nofun
  | _ => exact fun t ht => by cases ht

namespace Thrives

theorem start {config : Config} (hk : Kernel.boot config = .ok k) (trees : List Tree)
    (journal : Journal) : Thrives (Machine.start k (.planting trees) journal) := by
  refine ⟨.start hk _ journal, fun i => ?_, fun t ht => (by cases ht), trivial⟩
  obtain ⟨-, -, -, -, h0, hrest⟩ := Table.boot_eq_ok (Kernel.boot_eq_ok hk).1
  show (k.table.slotAt i).killed = false
  by_cases hi : i = 0
  · rw [hi, h0]
    rfl
  · rw [hrest i hi]
    rfl

/-- Forests go on thriving. -/
theorem turn (h : Thrives m) (t : Turn) :
    Turns m (m.turn (program m.kernel.table.adopter) t) ∧
      Thrives (m.turn (program m.kernel.table.adopter) t) := by
  obtain ⟨htakes, horderly, hmoves⟩ := h.orderly.takes (program_gentle _) t
  generalize m.turn (program m.kernel.table.adopter) t = m' at htakes horderly hmoves
  cases htakes with
  | pass stuck idle stays => exact ⟨.pass, h⟩
  | @act i p ph ph' k' started notes _ thread other acts goes =>
    obtain ⟨j, hseat⟩ := h.orderly.seat thread acts.ne_gone
    have hgrown := h.grown _ (List.mem_of_getElem? thread)
    obtain ⟨hgrows, hunmarked, hgrown'⟩ := acts_grow hseat h.unmarked hgrown acts
    refine ⟨.grow thread acts.ne_gone hgrows goes hmoves, horderly, ?_, ?_, ?_⟩
    · rw [goes.kernel]
      exact hunmarked
    · rw [goes.threads]
      intro t ht
      rcases List.mem_or_eq_of_mem_set ht with hmem | rfl
      · exact (List.mem_append.mp hmem).elim (h.grown t) (hgrows.started_grown t)
      · exact hgrown'
    · rw [goes.main]
      exact h.planted
  | lead leads goes =>
    obtain ⟨hplants, hunmarked, hplanted⟩ := leads_plant h.orderly.presides h.unmarked h.planted leads
    refine ⟨.plant hplants goes hmoves, horderly, ?_, ?_, ?_⟩
    · rw [goes.kernel]
      exact hunmarked
    · rw [goes.threads]
      intro t ht
      exact (List.mem_append.mp ht).elim (h.grown t) (hplants.started_grown t)
    · rw [goes.main]
      exact hplanted

end Thrives

/-! ## Nothing is lost -/

/-- How often something has been noted. -/
def tally (m : Machine Body Director Note) (note : Note) : Nat := m.notes.toList.count note

theorem tally_goes {threads : List (Thread Body)} (h : m.Goes m' k' mp threads notes) (note : Note) :
    tally m' note = tally m note + notes.count note := by
  rw [tally, h.notes, List.count_append, tally]

/-- Whoever was created is in the table or has been collected. -/
def Balanced (m : Machine Body Director Note) : Prop :=
  ∀ reaped, m.main.reaped? = some reaped →
    m.kernel.table.liveCount + tally m .collected + reaped.length = 1 + tally m .spawned

theorem Grows.count (h : Grows k p ph d k' ph' started notes) :
    notes.count .spawned = d.toList.countP Deed.isBirth ∧
      notes.count .collected = d.toList.countP Deed.isCollection := by
  cases h <;> exact ⟨rfl, rfl⟩

theorem Plants.count (h : Plants k mp d k' mp' started notes) :
    notes.count .spawned = d.toList.countP Deed.isBirth ∧ notes.count .collected = 0 ∧
      ∀ reaped', mp'.reaped? = some reaped' → ∃ reaped, mp.reaped? = some reaped ∧
        reaped'.length = reaped.length + d.toList.countP Deed.isCollection := by
  cases h with
  | keep reaped bare still =>
    exact ⟨rfl, rfl, fun list hlist => ⟨list, reaped ▸ hlist, rfl⟩⟩
  | plant gains | full full =>
    refine ⟨rfl, rfl, fun list hlist => ?_⟩
    cases hlist
    exact ⟨[], rfl, rfl⟩
  | collect earlier bare =>
    refine ⟨rfl, rfl, fun list hlist => ⟨_, earlier, ?_⟩⟩
    cases hlist
    rw [List.length_append]
    rfl

theorem Turns.balanced (ht : Turns m m') (h : Thrives m) (hb : Balanced m) : Balanced m' := by
  cases ht with
  | pass => exact hb
  | grow thread present grows goes moves =>
    intro reaped hreaped
    have hlive := (moves.turn h.orderly.sound).liveCount moves.capacity
    change m.kernel.table.liveCount + _ = m'.kernel.table.liveCount + _ at hlive
    rw [goes.main] at hreaped
    have hbefore := hb reaped hreaped
    obtain ⟨hspawned, hcollected⟩ := grows.count
    rw [tally_goes goes, tally_goes goes]
    omega
  | plant plants goes moves =>
    intro reaped' hreaped'
    have hlive := (moves.turn h.orderly.sound).liveCount moves.capacity
    change m.kernel.table.liveCount + _ = m'.kernel.table.liveCount + _ at hlive
    rw [goes.main] at hreaped'
    obtain ⟨hspawned, hcollected, hlist⟩ := plants.count
    obtain ⟨reaped, hreaped, hlength⟩ := hlist reaped' hreaped'
    have hbefore := hb reaped hreaped
    rw [tally_goes goes, tally_goes goes]
    omega

/-! ## What is still to come -/

/-- How many processes are still to come from a thread. -/
def leftOf (t : Thread Body) : Nat := (t.phase.body?.map Body.left).getD 0

/-- How many processes are still due to be collected by the process of a thread, and by those that
are still to come from it. -/
def dueOf (table : Table) (t : Thread Body) : Nat :=
  (t.phase.body?.map (Body.due (table.kids t.pid))).getD 0

/-- How many processes are still to come. -/
def left (m : Machine Body Director Note) : Nat :=
  Tree.sizes (seedlings m.main) + (m.threads.map leftOf).sum

/-- How many processes are still due to be collected by their parents. -/
def due (m : Machine Body Director Note) : Nat :=
  Tree.gatheredAll (seedlings m.main) + (m.threads.map (dueOf m.kernel.table)).sum

/-- Nothing has been lost for want of room: what there is and what is still to come make up the
trees. -/
structure Whole (trees : List Tree) (m : Machine Body Director Note) : Prop where
  spawned : tally m .spawned + left m = Tree.sizes trees
  exhausted : tally m .exhausted = 0
  collected : tally m .collected + due m = Tree.gatheredAll trees

theorem sum_turn {threads : List (Thread Body)} {t : Thread Body} (ht : threads[i]? = some t)
    (started : List (Thread Body)) (t' : Thread Body) {f f' : Thread Body → Nat}
    (hf : ∀ u ∈ threads.eraseIdx i, f' u = f u) :
    (((threads ++ started).set i t').map f').sum + f t =
      (threads.map f).sum + f' t' + (started.map f').sum := by
  have hlt := (List.getElem?_eq_some_iff.mp ht).1
  rw [List.set_append_left _ _ hlt, List.map_append, List.sum_append, sum_map_set hlt,
    sum_map_eraseIdx ht, List.map_congr_left hf]
  omega

theorem Planted.reaped? (h : Planted mp) : ∃ reaped, mp.reaped? = some reaped := by
  cases mp with
  | directing st | collecting reaped | blocked reaped w | joining reaped => exact ⟨_, rfl⟩
  | ended verdict =>
    cases verdict with
    | ok reaped => exact ⟨reaped, rfl⟩
    | error failure => exact h.elim

/-- The table has room for what is still to come. -/
theorem Whole.room (hw : Whole trees m) (h : Thrives m) (hb : Balanced m)
    (hroom : Tree.sizes trees < m.kernel.table.capacity) (hleft : 0 < left m) :
    m.kernel.table.freeSlot? ≠ none := by
  intro hfull
  have hlive := Table.liveCount_of_full hfull
  obtain ⟨reaped, hreaped⟩ := h.planted.reaped?
  have hbalanced := hb reaped hreaped
  have hspawned := hw.spawned
  omega

/-! ## Turns of processes -/

/-- A body that has just begun: its process has no children yet. -/
theorem due_sprout (depth : Nat) (t : Tree) :
    (Body.growing depth t.children t.collects).due 0 = t.gathered := by
  rw [Tree.gathered_eq, Body.due, Nat.zero_add]

theorem left_sprout (depth : Nat) (t : Tree) :
    (Body.growing depth t.children t.collects).left + 1 = t.size := by
  rw [Tree.size_eq, Body.left]

theorem leftOf_eq {b : Body} (h : ph.body? = some b) : leftOf ⟨p, ph⟩ = b.left := by
  show (ph.body?.map Body.left).getD 0 = b.left
  rw [h]
  rfl

theorem dueOf_eq {b : Body} (h : ph.body? = some b) (table : Table) :
    dueOf table ⟨p, ph⟩ = b.due (table.kids p) := by
  show (ph.body?.map (Body.due (table.kids p))).getD 0 = b.due (table.kids p)
  rw [h]
  rfl

/-- The child that was forked has no children, and its parent has one more. -/
theorem kids_forked {t t' : Table} {parent : Pid} (hg : t.Gains q parent t')
    (hc : t'.capacity = t.capacity) (hq : q ≠ parent) :
    t'.kids q = 0 ∧ t'.kids parent = t.kids parent + 1 := by
  have hself := hg.kids hc parent
  have hchild := hg.kids hc q
  rw [if_pos rfl] at hself
  rw [if_neg hq, hg.1.kids] at hchild
  exact ⟨hchild, hself⟩

/-- What a process forks and collects is taken off what is to come from it. -/
theorem Grows.account {x y : Scene} (h : Grows x.kernel p ph d y.kernel ph' started notes)
    (hm : Scene.Moves x d.toList y) {j : Nat} (hp : (x.table.slotAt j).holds p = true)
    (hroom : 0 < leftOf ⟨p, ph⟩ → x.table.freeSlot? ≠ none) :
    leftOf ⟨p, ph⟩ = notes.count .spawned + leftOf ⟨p, ph'⟩ + (started.map leftOf).sum ∧
      notes.count .exhausted = 0 ∧
      dueOf x.table ⟨p, ph⟩ =
        notes.count .collected + dueOf y.table ⟨p, ph'⟩ + (started.map (dueOf y.table)).sum := by
  generalize hk : x.kernel = k at h
  generalize hk' : y.kernel = k' at h
  cases h with
  | keep same =>
    have hkids : y.table.kids p = x.table.kids p := hm.continues.kids p
    refine ⟨?_, rfl, ?_⟩
    · show (ph.body?.map Body.left).getD 0 = 0 + (ph'.body?.map Body.left).getD 0 + 0
      rw [same, zero_add, add_zero]
    · show (ph.body?.map (Body.due (x.table.kids p))).getD 0 =
        0 + (ph'.body?.map (Body.due (y.table.kids p))).getD 0 + 0
      rw [same, hkids, zero_add, add_zero]
  | @fork depth child children collects q _ gains =>
    subst hk hk'
    have hne : q ≠ p := by
      rintro rfl
      rw [gains.1.unheld j] at hp
      cases hp
    obtain ⟨hchild, hself⟩ : y.table.kids q = 0 ∧ y.table.kids p = x.table.kids p + 1 :=
      kids_forked gains hm.capacity hne
    have hleft := left_sprout (depth + 1) child
    have hdue := due_sprout (depth + 1) child
    refine ⟨?_, rfl, ?_⟩
    · show Tree.sizes (child :: children) = 1 + Tree.sizes children +
        ((Body.growing (depth + 1) child.children child.collects).left + 0)
      rw [Tree.sizes]
      omega
    · show (Body.growing depth (child :: children) collects).due (x.table.kids p) =
        0 + (Body.growing depth children collects).due (y.table.kids p) +
          ((Body.growing (depth + 1) child.children child.collects).due (y.table.kids q) + 0)
      rw [hself, hchild, hdue]
      simp only [Body.due, Tree.gatheredAll, List.length_cons]
      split <;> omega
  | @full depth child children collects full =>
    subst hk
    refine absurd full (hroom ?_)
    show 0 < Tree.sizes (child :: children)
    rw [Tree.sizes, Tree.size_eq]
    omega
  | @collect ph depth q code _ body =>
    have hkids := Scene.Moves.kids_collected hm p
    rw [if_pos rfl] at hkids
    refine ⟨?_, rfl, ?_⟩
    · rw [leftOf_eq body]
      rfl
    · rw [dueOf_eq body]
      show x.table.kids p + 0 + 0 = 1 + (y.table.kids p + 0 + 0) + 0
      omega
  | leave body childless =>
    subst hk
    refine ⟨?_, rfl, ?_⟩
    · rw [leftOf_eq body]
      rfl
    · rw [dueOf_eq body]
      show x.table.kids p + 0 + 0 = 0 + (0 + 0) + 0
      omega
  | finish => exact ⟨rfl, rfl, rfl⟩

/-- Nobody but the process itself and the adopter gets or loses children. -/
theorem Grows.kids_others {x y : Scene} (h : Grows x.kernel p ph d y.kernel ph' started notes)
    (hs : x.Sound) (hm : Scene.Moves x d.toList y) (hr : r ≠ p) (ha : r ≠ x.table.adopter) :
    y.table.kids r = x.table.kids r := by
  generalize hk : x.kernel = k at h
  generalize hk' : y.kernel = k' at h
  cases h with
  | keep _ | full _ | leave _ _ => exact hm.continues.kids r
  | fork gains =>
    subst hk hk'
    rw [Table.Gains.kids gains hm.capacity, if_neg hr]
    rfl
  | collect body =>
    have hkids := Scene.Moves.kids_collected hm r
    rw [if_neg hr] at hkids
    exact hkids.symm
  | finish => exact hm.kids_ended hs hr ha

/-- What the main thread plants is taken off what is to be planted. -/
theorem Plants.account {x y : Scene} (h : Plants x.kernel mp d y.kernel mp' started notes)
    (hm : Scene.Moves x d.toList y) (hroom : 0 < Tree.sizes (seedlings mp) →
      x.table.freeSlot? ≠ none) :
    Tree.sizes (seedlings mp) =
        notes.count .spawned + Tree.sizes (seedlings mp') + (started.map leftOf).sum ∧
      notes.count .exhausted = 0 ∧
      Tree.gatheredAll (seedlings mp) = notes.count .collected +
        Tree.gatheredAll (seedlings mp') + (started.map (dueOf y.table)).sum := by
  generalize hk : x.kernel = k at h
  generalize hk' : y.kernel = k' at h
  cases h with
  | keep reaped bare still =>
    rw [bare, still]
    exact ⟨rfl, rfl, rfl⟩
  | @plant t trees q _ gains =>
    subst hk hk'
    obtain ⟨hchild, -⟩ := kids_forked gains hm.capacity gains.1.ne_adopter
    have hleft := left_sprout 0 t
    have hdue := due_sprout 0 t
    refine ⟨?_, rfl, ?_⟩
    · show Tree.sizes (t :: trees) = 1 + Tree.sizes trees +
        ((Body.growing 0 t.children t.collects).left + 0)
      rw [Tree.sizes]
      omega
    · show Tree.gatheredAll (t :: trees) =
        0 + Tree.gatheredAll trees +
          ((Body.growing 0 t.children t.collects).due (y.table.kids q) + 0)
      rw [hchild, hdue, Tree.gatheredAll]
      omega
  | @full t trees _ full =>
    subst hk
    refine absurd full (hroom ?_)
    show 0 < Tree.sizes (t :: trees)
    rw [Tree.sizes, Tree.size_eq]
    omega
  | collect earlier bare =>
    rw [bare]
    exact ⟨rfl, rfl, rfl⟩

theorem Plants.kids_others {x y : Scene} (h : Plants x.kernel mp d y.kernel mp' started notes)
    (hm : Scene.Moves x d.toList y) (ha : r ≠ x.table.adopter) :
    y.table.kids r = x.table.kids r := by
  generalize hk : x.kernel = k at h
  generalize hk' : y.kernel = k' at h
  cases h with
  | keep _ _ _ | full _ => exact hm.continues.kids r
  | plant gains =>
    subst hk hk'
    rw [Table.Gains.kids gains hm.capacity, if_neg ha]
    rfl
  | collect earlier bare =>
    subst hk
    have hkids := Scene.Moves.kids_collected hm r
    rw [if_neg ha] at hkids
    exact hkids.symm

/-! ## Turns of the forest -/

/-- The process of a thread that is not gone is in the table, and is not the adopter. -/
theorem Thrives.held (h : Thrives m) (hi : m.threads[i]? = some ⟨p, ph⟩) (hne : ph ≠ .gone) :
    p ≠ m.kernel.table.adopter ∧ ∃ j, (m.kernel.table.slotAt j).holds p = true := by
  obtain ⟨j, hseat⟩ := h.orderly.seat hi hne
  exact ⟨hseat.ne_adopter, j, hseat.holds⟩

theorem dueOf_congr {t t' : Table} {u : Thread Body}
    (h : u.phase ≠ .gone → t'.kids u.pid = t.kids u.pid) : dueOf t' u = dueOf t u := by
  cases hphase : u.phase with
  | gone =>
    rw [dueOf, dueOf, hphase]
    rfl
  | _ => rw [dueOf, dueOf, h (by rw [hphase]; nofun)]

/-- A forest stays whole when what is noted is taken off what is still to come. -/
theorem Whole.goes {threads : List (Thread Body)} (hw : Whole trees m)
    (goes : m.Goes m' k' mp threads notes) (hleft : left m = notes.count .spawned + left m')
    (hexhausted : notes.count .exhausted = 0) (hdue : due m = notes.count .collected + due m') :
    Whole trees m' := by
  obtain ⟨hspawned, hnone, hcollected⟩ := hw
  refine ⟨?_, ?_, ?_⟩ <;> rw [tally_goes goes] <;> omega

/-- Taking turns keeps a forest whole while there is room. -/
theorem Turns.whole (ht : Turns m m') (h : Thrives m) (hb : Balanced m)
    (hroom : Tree.sizes trees < m.kernel.table.capacity) (hw : Whole trees m) : Whole trees m' := by
  cases ht with
  | pass => exact hw
  | @grow i p ph ph' d k' started notes _ thread present grows goes moves =>
    obtain ⟨-, j, hp⟩ := h.held thread present
    have hmine : leftOf ⟨p, ph⟩ ≤ left m := by
      rw [left, sum_map_eraseIdx thread]
      omega
    rw [← goes.kernel] at grows
    obtain ⟨hspawned, hexhausted, hcollected⟩ := grows.account moves hp fun hpos =>
      hw.room h hb hroom (Nat.lt_of_lt_of_le hpos hmine)
    have hothers : ∀ u ∈ m.threads.eraseIdx i,
        dueOf m'.kernel.table u = dueOf m.kernel.table u := by
      rintro ⟨q, phase⟩ hu
      obtain ⟨n, hn, hget⟩ := List.mem_eraseIdx_iff_getElem?.mp hu
      refine dueOf_congr fun hgone => ?_
      refine grows.kids_others (x := m.scene) (y := m'.scene) h.orderly.sound moves ?_
        (h.held hget hgone).1
      rintro rfl
      exact (h.orderly.seating.apart n i _ _ _ hn hget thread).elim hgone present
    have hleft := sum_turn thread started ⟨p, ph'⟩ fun u _ => Eq.refl (leftOf u)
    have hdue := sum_turn thread started ⟨p, ph'⟩ hothers
    refine hw.goes goes ?_ hexhausted ?_
    · rw [left, left, goes.main, goes.threads]
      omega
    · rw [due, due, goes.main, goes.threads]
      change dueOf m.kernel.table _ = _ + dueOf m'.kernel.table _ +
        (started.map (dueOf m'.kernel.table)).sum at hcollected
      omega
  | @plant d k' main' started notes _ plants goes moves =>
    rw [← goes.kernel] at plants
    obtain ⟨hspawned, hexhausted, hcollected⟩ := plants.account moves fun hpos =>
      hw.room h hb hroom (Nat.lt_of_lt_of_le hpos (Nat.le_add_right _ _))
    have hothers : ∀ u ∈ m.threads, dueOf m'.kernel.table u = dueOf m.kernel.table u := by
      intro u hu
      obtain ⟨n, hget⟩ := List.getElem?_of_mem hu
      refine dueOf_congr fun hgone => ?_
      exact plants.kids_others (x := m.scene) (y := m'.scene) moves (h.held hget hgone).1
    refine hw.goes goes ?_ hexhausted ?_
    · rw [left, left, goes.main, goes.threads, List.map_append, List.sum_append]
      omega
    · rw [due, due, goes.main, goes.threads, List.map_append, List.sum_append,
        List.map_congr_left hothers]
      change _ = _ + _ + (started.map (dueOf m'.kernel.table)).sum at hcollected
      omega

/-! ## Reports -/

/-- What holds of a forest, whatever turns it has taken since it started with a given table. -/
structure Keeps (trees : List Tree) (table : Table) (m : Machine Body Director Note) : Prop
    extends Thrives m where
  adopter : m.kernel.table.adopter = table.adopter
  capacity : m.kernel.table.capacity = table.capacity
  balanced : Balanced m
  whole : Tree.sizes trees < table.capacity → Whole trees m

namespace Keeps

theorem start {config : Config} (hk : Kernel.boot config = .ok k) (trees : List Tree)
    (journal : Journal) : Keeps trees k.table (Machine.start k (.planting trees) journal) where
  toThrives := .start hk trees journal
  adopter := rfl
  capacity := rfl
  balanced := by
    intro reaped hreaped
    obtain rfl := Option.some.inj hreaped
    show k.table.liveCount + 0 + 0 = 1 + 0
    rw [Table.liveCount_boot (Kernel.boot_eq_ok hk).1]
  whole _ := by
    refine ⟨?_, rfl, ?_⟩
    · show 0 + (Tree.sizes trees + 0) = Tree.sizes trees
      rw [zero_add, add_zero]
    · show 0 + (Tree.gatheredAll trees + 0) = Tree.gatheredAll trees
      rw [zero_add, add_zero]

theorem turn {table : Table} (h : Keeps trees table m) (t : Turn) :
    Keeps trees table (m.turn (program table.adopter) t) := by
  obtain ⟨hturns, hthrives⟩ := h.toThrives.turn t
  have hadopter := h.orderly.adopter_turn (program_gentle m.kernel.table.adopter) t
  rw [h.adopter] at hturns hthrives hadopter
  refine ⟨hthrives, hadopter, ?_, hturns.balanced h.toThrives h.balanced, fun hroom => ?_⟩
  · exact hturns.capacity.trans h.capacity
  · exact hturns.whole h.toThrives h.balanced (h.capacity ▸ hroom) (h.whole hroom)

theorem follow {table : Table} (h : Keeps trees table m) (schedule : List Turn) :
    Keeps trees table (m.follow (program table.adopter) schedule) :=
  follow_keep (fun t h => h.turn t) h schedule

end Keeps

/-- What the report on some trees and the table that they leave say: everybody who was created has
been collected, and only the adopter is left. Where the table has room for all processes of the
trees, the counts depend on the trees alone. -/
def Accounted (trees : List Tree) (config : Config) (k : Kernel)
    (reported : Except Failure ConcurrentReport) : Prop :=
  ∃ r, reported = .ok r ∧ r.spawned = r.reapedByParents + r.reapedByInit ∧
    (∀ i p, (k.table.slotAt i).holds p = true ↔ i = 0 ∧ p = config.adopter) ∧
    (Tree.sizes trees < config.capacity →
      r = ⟨Tree.sizes trees, 0, Tree.gatheredAll trees,
        Tree.sizes trees - Tree.gatheredAll trees⟩)

/-- Nothing more is to come when all threads are gone. -/
theorem left_of_gone (hp : seedlings m.main = []) (hg : ∀ t ∈ m.threads, t.isGone = true) :
    left m = 0 ∧ due m = 0 := by
  have hnone : ∀ t ∈ m.threads, t.phase.body? = none := by
    rintro ⟨p, ph⟩ ht
    cases ph with
    | gone => rfl
    | _ => cases hg _ ht
  have hleft : (m.threads.map leftOf).sum = 0 :=
    List.sum_eq_zero (List.forall_mem_map.mpr fun t ht => by rw [leftOf, hnone t ht]; rfl)
  have hdue : (m.threads.map (dueOf m.kernel.table)).sum = 0 :=
    List.sum_eq_zero (List.forall_mem_map.mpr fun t ht => by rw [dueOf, hnone t ht]; rfl)
  rw [left, due, hp, hleft, hdue]
  exact ⟨rfl, rfl⟩

theorem report_eq_ok {reaped : List (Pid × ExitCode)} (hm : m.main = .ended (.ok reaped))
    (hs : tally m .spawned = tally m .collected + reaped.length) :
    report m = .ok ⟨tally m .spawned, tally m .exhausted, tally m .collected, reaped.length⟩ := by
  have hverdict : m.verdict = .ok reaped := by
    rw [Machine.verdict, Machine.verdict?, hm]
    rfl
  rw [report, hverdict]
  exact if_neg (not_not.mpr hs)

/-- A forest is accounted for when its run is over. -/
theorem Keeps.accounted {config : Config} (hk : Kernel.boot config = .ok k)
    (h : Keeps trees k.table m) (hv : m.verdict?.isSome = true) :
    Accounted trees config m.kernel (report m) := by
  obtain ⟨verdict, hverdict⟩ := Option.isSome_iff_exists.mp hv
  have hmain := ended_of_verdict? hverdict
  obtain ⟨reaped, hreaped⟩ := h.planted.reaped?
  have hbalanced := h.balanced reaped hreaped
  obtain rfl : verdict = .ok reaped := by
    rw [hmain] at hreaped
    cases verdict <;> cases hreaped
    rfl
  obtain ⟨-, hcapacity, hadopter, -⟩ := Table.boot_eq_ok (Kernel.boot_eq_ok hk).1
  have halone := h.orderly.alone hmain
  have hlive : m.kernel.table.liveCount = 1 := h.orderly.sound.table.liveCount_eq_one halone
  have hspawned : tally m .spawned = tally m .collected + reaped.length := by omega
  refine ⟨_, report_eq_ok hmain hspawned, hspawned, fun i p => ?_, fun hroom => ?_⟩
  · rw [← hadopter, ← h.adopter]
    exact h.orderly.sound.table.holds_iff_of_alone halone
  · obtain ⟨hall, hnone, hcollected⟩ := h.whole (hcapacity ▸ hroom)
    obtain ⟨hleft, hdue⟩ := left_of_gone (by rw [hmain]; rfl) (h.orderly.allGone halone)
    rw [hleft, add_zero] at hall
    rw [hdue, add_zero] at hcollected
    rw [hnone, hcollected, hall]
    congr 1
    omega

/-- What is yielded is the report on the machine that has run. -/
theorem concurrent_eq {γ : Type} (dice : Dice γ) (workers : Nat) (seed : UInt64) (k : Kernel)
    (journal : Journal) :
    (concurrent dice workers seed k journal).report =
        report (machine (Tree.forest dice workers seed) k journal) ∧
      (concurrent dice workers seed k journal).kernel =
        (machine (Tree.forest dice workers seed) k journal).kernel := by
  rw [concurrent]
  split
  · rename_i failure hreport
    exact ⟨hreport.symm, rfl⟩
  · rename_i r hreport
    exact ⟨hreport.symm, rfl⟩

/-- However the processes of random trees and the main thread take turns, when the run is over
everybody who was created has been collected and only the adopter is left. If there is room for all
trees the report depends on them alone: each process of a tree is created, and a process that
collects has collected all its children. -/
theorem report_forest {γ : Type} (dice : Dice γ) (workers : Nat) (seed : UInt64) {config : Config}
    {k : Kernel} (hk : Kernel.boot config = .ok k) (journal : Journal) :
    let trees := Tree.forest dice workers seed
    let start := Machine.start k (Director.planting trees) journal
    (∀ schedule,
      let m := start.follow (program k.table.adopter) schedule
      m.verdict?.isSome → Accounted trees config m.kernel (report m)) ∧
    ((machine trees k journal).verdict?.isSome →
      let yielded := concurrent dice workers seed k journal
      Accounted trees config yielded.kernel yielded.report) := by
  intro trees
  have hstart := Keeps.start hk trees journal
  refine ⟨fun schedule hv => (hstart.follow schedule).accounted hk hv, fun hv => ?_⟩
  obtain ⟨schedule, hschedule⟩ := run_eq_follow (program k.table.adopter) Machine.patience
    (Machine.start k (.planting trees) journal)
  have hkeeps : Keeps trees k.table (machine trees k journal) := by
    rw [machine, hschedule]
    exact hstart.follow schedule
  obtain ⟨hreport, hkernel⟩ := concurrent_eq dice workers seed k journal
  show Accounted trees config (concurrent dice workers seed k journal).kernel
    (concurrent dice workers seed k journal).report
  rw [hreport, hkernel]
  exact hkeeps.accounted hk hv

/-- Dice whose throws are known: a process that collects has two children, and the first of them
leaves a child behind. -/
def loaded : Dice (List Nat) where
  start seed :=
    match seed with
    | 0 => [1]
    | 1 => [2, 2, 3, 1]
    | 2 => [1, 3, 0]
    | _ => [0, 1]
  below n throws := (throws.headD 0 % n, throws.tail)
  flip throws := (throws.headD 0 == 1, throws.tail)
  seed throws := (UInt64.ofNat (throws.headD 0), throws.tail)

/-- The grandchild lags behind. -/
def lagging : List Turn :=
  .main :: (List.replicate 20 [.main, .thread 0, .thread 1, .thread 2]).flatten ++
    (List.replicate 8 [.main, .thread 3]).flatten

theorem report_forest_loaded :
    ∃ k, Kernel.boot ⟨5, ⟨9⟩⟩ = .ok k ∧
      let start := Machine.start k (.planting (Tree.forest loaded 1 0)) #[]
      report (start.follow (program k.table.adopter) lagging) = .ok ⟨4, 0, 2, 2⟩ ∧
      (concurrent loaded 1 0 k #[]).report = .ok ⟨4, 0, 2, 2⟩ := by
  have hk : Kernel.boot ⟨5, ⟨9⟩⟩ = .ok _ := rfl
  obtain ⟨hfollow, hrun⟩ := report_forest loaded 1 0 hk #[]
  obtain ⟨r, hr, -, -, hroom⟩ := hfollow lagging (by decide +kernel)
  obtain ⟨r', hr', -, -, hroom'⟩ := hrun (by decide +kernel)
  refine ⟨_, hk, ?_, ?_⟩
  · rw [hr, hroom (by decide)]
    rfl
  · rw [hr', hroom' (by decide)]
    rfl

end Concurrent

end Scenario

end Lifecycle
