import Lifecycle.Proofs.Table.Lineage
import Mathlib.Logic.Relation
/-!
# What an audit accepts

An audit passes exactly the legal tables, and that also among the tables which no kernel comes to
hold. On its way up from a process it resolves each parent link to the first slot that holds the
linked process, and it stops after as many hops as there are slots. A climb that ends passes no
process twice, so it ends within that many hops. The cut-off therefore stops only climbs that would
go on for ever, and to climb further would change no verdict.
-/

namespace Lifecycle

namespace Table

variable {t : Table} {link : Option Pid} {n m : Nat} {v w : Option Breach}

/-! ## Climbs that end -/

/-- A climb from a link ends after a number of hops: at the adopter, or because something is wrong.
-/
inductive Ends (t : Table) : Nat → Option Pid → Option Breach → Prop
  | unlinked : Ends t 0 none (some .noParent)
  | home : Ends t 0 (some t.adopter) none
  | dangling {q : Pid} (other : q ≠ t.adopter) (nobody : t.slotOf? q = none) :
      Ends t 0 (some q) (some .danglingParent)
  | zombie {q : Pid} {i : Nat} (other : q ≠ t.adopter) (slot : t.slotOf? q = some i)
      (ended : (t.slotAt i).isZombie = true) : Ends t 0 (some q) (some .zombieParent)
  | hop {q : Pid} {i n : Nat} {v : Option Breach} (other : q ≠ t.adopter)
      (slot : t.slotOf? q = some i) (lasting : (t.slotAt i).isZombie = false)
      (rest : Ends t n (t.slotAt i).parent v) : Ends t (n + 1) (some q) v

section Hops

variable {q : Pid} {i : Nat} (other : q ≠ t.adopter) (slot : t.slotOf? q = some i)
  (lasting : (t.slotAt i).isZombie = false)

include other slot lasting

theorem climb_zero : t.climb 0 (some q) = some .parentCycle := by
  rw [climb, if_neg other, slot]
  simp only [lasting, Bool.false_eq_true, if_false]

theorem climb_succ (left : Nat) :
    t.climb (left + 1) (some q) = t.climb left (t.slotAt i).parent := by
  rw [climb, if_neg other, slot]
  simp only [lasting, Bool.false_eq_true, if_false]

end Hops

namespace Ends

/-- From a link there is one way up. -/
theorem unique (h : t.Ends n link v) (h' : t.Ends m link w) : n = m ∧ v = w := by
  induction h generalizing m w with
  | unlinked =>
    cases h'
    exact ⟨rfl, rfl⟩
  | home =>
    cases h' with
    | home => exact ⟨rfl, rfl⟩
    | dangling other => exact absurd rfl other
    | zombie other => exact absurd rfl other
    | hop other => exact absurd rfl other
  | dangling other nobody =>
    cases h' with
    | home => exact absurd rfl other
    | dangling => exact ⟨rfl, rfl⟩
    | zombie _ slot => simp [nobody] at slot
    | hop _ slot => simp [nobody] at slot
  | zombie other slot ended =>
    cases h' with
    | home => exact absurd rfl other
    | dangling _ nobody => simp [nobody] at slot
    | zombie => exact ⟨rfl, rfl⟩
    | hop _ slot' lasting =>
      obtain rfl := Option.some.inj (slot.symm.trans slot')
      simp [ended] at lasting
  | hop other slot lasting _ ih =>
    cases h' with
    | home => exact absurd rfl other
    | dangling _ nobody => simp [nobody] at slot
    | zombie _ slot' ended =>
      obtain rfl := Option.some.inj (slot.symm.trans slot')
      simp [ended] at lasting
    | hop _ slot' _ rest =>
      obtain rfl := Option.some.inj (slot.symm.trans slot')
      obtain ⟨hn, hv⟩ := ih rest
      exact ⟨congrArg (· + 1) hn, hv⟩

/-- The processes that are passed on the way up are all different: from each of them the way that is
left has another length. -/
theorem exists_passed (h : t.Ends n link v) : ∃ ps : List Pid, ps.length = n ∧ ps.Nodup ∧
    ∀ p ∈ ps, (∃ i, (t.slotAt i).holds p = true) ∧ ∃ m ≤ n, t.Ends m (some p) v := by
  induction h with
  | @hop q i n v other slot lasting rest ih =>
    obtain ⟨ps, hlen, hnodup, hps⟩ := ih
    have hself := Ends.hop other slot lasting rest
    refine ⟨q :: ps, congrArg (· + 1) hlen, List.nodup_cons.mpr ⟨fun hmem => ?_, hnodup⟩, ?_⟩
    · obtain ⟨-, m, hm, hends⟩ := hps q hmem
      have heq := (hself.unique hends).1
      omega
    · intro p hp
      rcases List.mem_cons.mp hp with rfl | hp
      · exact ⟨⟨i, holds_of_slotOf? slot⟩, n + 1, Nat.le_refl _, hself⟩
      · obtain ⟨hheld, m, hm, hends⟩ := hps p hp
        exact ⟨hheld, m, by omega, hends⟩
  | _ => exact ⟨[], rfl, List.nodup_nil, nofun⟩

theorem le_capacity (h : t.Ends n link v) : n ≤ t.capacity := by
  obtain ⟨ps, hlen, hnodup, hps⟩ := h.exists_passed
  rw [← hlen]
  exact length_le_capacity hnodup fun p hp => (hps p hp).1

theorem climb_eq (h : t.Ends n link v) {steps : Nat} (hn : n ≤ steps) :
    t.climb steps link = v := by
  induction h generalizing steps with
  | unlinked => rw [climb.eq_def]
  | home =>
    rw [climb.eq_def]
    exact if_pos rfl
  | dangling other nobody =>
    rw [climb.eq_def]
    simp only [other, nobody, if_false]
  | zombie other slot ended =>
    rw [climb.eq_def]
    simp only [other, slot, ended, if_false, if_true]
  | hop other slot lasting _ ih =>
    cases steps with
    | zero => omega
    | succ left =>
      rw [climb_succ other slot lasting]
      exact ih (by omega)

end Ends

/-- A climb ends at once, or it goes on past the process that the link names. -/
theorem ends_or_hops (t : Table) (link : Option Pid) : (∃ v, t.Ends 0 link v) ∨
    ∃ q i, link = some q ∧ q ≠ t.adopter ∧ t.slotOf? q = some i ∧
      (t.slotAt i).isZombie = false := by
  cases link with
  | none => exact .inl ⟨_, .unlinked⟩
  | some q =>
    by_cases hq : q = t.adopter
    · subst hq
      exact .inl ⟨_, .home⟩
    · cases hslot : t.slotOf? q with
      | none => exact .inl ⟨_, .dangling hq hslot⟩
      | some i =>
        cases hz : (t.slotAt i).isZombie with
        | true => exact .inl ⟨_, .zombie hq hslot hz⟩
        | false => exact .inr ⟨q, i, rfl, hq, hslot, hz⟩

/-- A climb that is not cut off has ended. -/
theorem ends_of_climb {steps : Nat} (h : t.climb steps link ≠ some .parentCycle) :
    ∃ n, t.Ends n link (t.climb steps link) := by
  induction steps generalizing link with
  | zero =>
    rcases t.ends_or_hops link with ⟨v, hends⟩ | ⟨q, i, rfl, other, slot, lasting⟩
    · rw [hends.climb_eq (Nat.le_refl 0)]
      exact ⟨0, hends⟩
    · exact absurd (climb_zero other slot lasting) h
  | succ left ih =>
    rcases t.ends_or_hops link with ⟨v, hends⟩ | ⟨q, i, rfl, other, slot, lasting⟩
    · rw [hends.climb_eq (Nat.zero_le _)]
      exact ⟨0, hends⟩
    · rw [climb_succ other slot lasting] at h ⊢
      obtain ⟨n, hends⟩ := ih h
      exact ⟨n + 1, .hop other slot lasting hends⟩

/-- A climb of as many hops as there are slots ends if any climb does, and in the same way. -/
theorem climb_of_capacity_le {steps : Nat} (h : t.capacity ≤ steps) :
    t.climb steps link = t.climb t.capacity link := by
  by_cases hcycle : t.climb steps link = some .parentCycle
  · by_contra hne
    rw [hcycle] at hne
    obtain ⟨n, hends⟩ := ends_of_climb (Ne.symm hne)
    rw [hends.climb_eq (Nat.le_trans hends.le_capacity h)] at hcycle
    exact hne hcycle.symm
  · obtain ⟨n, hends⟩ := ends_of_climb hcycle
    exact (hends.climb_eq hends.le_capacity).symm

/-! ## Legal tables -/

/-- The parent links lead from a link to the adopter, past processes in use that have not ended. -/
inductive Leads (t : Table) : Option Pid → Prop
  | home : Leads t (some t.adopter)
  | hop {q : Pid} {i : Nat} (holds : (t.slotAt i).holds q = true)
      (lasting : (t.slotAt i).isZombie = false) (rest : Leads t (t.slotAt i).parent) :
      Leads t (some q)

/-- No two slots hold one process. -/
def Distinct (t : Table) : Prop :=
  ∀ i j p, (t.slotAt i).holds p = true → (t.slotAt j).holds p = true → i = j

/-- The rules of a process table, said without a search. -/
structure Legal (t : Table) : Prop where
  named : ∀ i, (t.slotAt i).pid.isSome = (t.slotAt i).inUse
  distinct : t.Distinct
  codes : ∀ i, (t.slotAt i).inUse = true →
    (t.slotAt i).exitCode.isSome = (t.slotAt i).isZombie
  housed : ∀ i, (t.slotAt i).status.isAlive = true → (t.slotAt i).space.isSome = true
  released : ∀ i, (t.slotAt i).isZombie = true → (t.slotAt i).space = none
  root : ∀ i, (t.slotAt i).pid = some t.adopter → (t.slotAt i).parent = none
  lines : ∀ i, (t.slotAt i).inUse = true → (t.slotAt i).pid ≠ some t.adopter →
    t.Leads (t.slotAt i).parent

theorem Distinct.slotOf? (h : t.Distinct) {i : Nat} {q : Pid}
    (hq : (t.slotAt i).holds q = true) : t.slotOf? q = some i := by
  refine slotOf?_eq_some.mpr ⟨hq, fun j hj => ?_⟩
  by_contra hne
  have hij := h j i q (by simpa using hne) hq
  omega

theorem Leads.of_ends (h : t.Ends n link none) : t.Leads link := by
  generalize hv : (none : Option Breach) = v at h
  induction h with
  | home => exact .home
  | hop _ slot lasting _ ih => exact .hop (holds_of_slotOf? slot) lasting (ih hv)
  | _ => cases hv

theorem Leads.ends (h : t.Leads link) (hd : t.Distinct) : ∃ n, t.Ends n link none := by
  induction h with
  | home => exact ⟨0, .home⟩
  | @hop q i holds lasting _ ih =>
    by_cases hq : q = t.adopter
    · subst hq
      exact ⟨0, .home⟩
    · obtain ⟨n, hends⟩ := ih
      exact ⟨n + 1, .hop hq (hd.slotOf? holds) lasting hends⟩

/-- A climb of as many hops as there are slots finds nothing wrong exactly if the links lead home. -/
theorem climb_eq_none (hd : t.Distinct) : t.climb t.capacity link = none ↔ t.Leads link := by
  constructor
  · intro h
    have hends : t.climb t.capacity link ≠ some .parentCycle := by simp [h]
    obtain ⟨n, hends⟩ := ends_of_climb hends
    rw [h] at hends
    exact .of_ends hends
  · intro h
    obtain ⟨n, hends⟩ := h.ends hd
    exact hends.climb_eq hends.le_capacity

/-- The parent link of the process in a slot names the process in another. -/
def Links (t : Table) (i j : Nat) : Prop :=
  (t.slotAt i).inUse = true ∧ ∃ q, (t.slotAt i).parent = some q ∧ (t.slotAt j).holds q = true

/-- Links that lead to the adopter do not go in a circle. -/
theorem Legal.no_circle (h : t.Legal) {i : Nat} (hl : t.Leads (t.slotAt i).parent) :
    ¬Relation.TransGen t.Links i i := by
  generalize hlink : (t.slotAt i).parent = link at hl
  -- A circle through a process is also one through its parent.
  have hturn : ∀ {i}, Relation.TransGen t.Links i i → ∃ j q, (t.slotAt i).parent = some q ∧
      (t.slotAt j).holds q = true ∧ Relation.TransGen t.Links j j := by
    intro i hcircle
    obtain ⟨j, hij, hback⟩ := Relation.TransGen.head'_iff.mp hcircle
    obtain ⟨-, q, hq, hj⟩ := id hij
    exact ⟨j, q, hq, hj, .tail' hback hij⟩
  induction hl generalizing i with
  | home =>
    intro hcircle
    obtain ⟨j, q, hq, hj, hcircle⟩ := hturn hcircle
    obtain rfl := Option.some.inj (hlink.symm.trans hq)
    obtain ⟨-, r, hr, -⟩ := hturn hcircle
    rw [h.root j (Slot.holds_iff.mp hj).2] at hr
    cases hr
  | hop holds _ _ ih =>
    intro hcircle
    obtain ⟨j, q, hq, hj, hcircle⟩ := hturn hcircle
    obtain rfl := Option.some.inj (hlink.symm.trans hq)
    rw [h.distinct _ _ _ hj holds] at hcircle
    exact ih rfl hcircle

/-! ## The verdict on a slot -/

/-- A slot in use breaks no rule, given the slots after it. -/
structure Passes (t : Table) (s : Slot) (p : Pid) (later : List Slot) : Prop where
  pid : s.pid = some p
  alone : later.any (·.holds p) = false
  code : s.exitCode.isSome = s.isZombie
  housed : s.status.isAlive = true → s.space.isSome = true
  released : s.isZombie = true → s.space = none
  root : p = t.adopter → s.parent = none
  line : p ≠ t.adopter → t.climb t.capacity s.parent = none

variable {s : Slot} {later : List Slot}

theorem breach?_of_free (h : s.inUse = false) : t.breach? s later = none ↔ s.pid = none := by
  rw [breach?, h]
  cases s.pid <;> simp

theorem breach?_of_inUse (h : s.inUse = true) :
    t.breach? s later = none ↔ ∃ p, t.Passes s p later := by
  cases hpid : s.pid with
  | none =>
    simp only [breach?, h, hpid, if_true, reduceCtorEq, false_iff, not_exists]
    intro p hp
    rw [hp.pid] at hpid
    cases hpid
  | some p =>
    simp only [breach?, h, hpid, if_true, ite_eq_iff, reduceCtorEq, and_false, false_or,
      and_true]
    constructor
    · intro hx
      obtain ⟨halone, hcode, hhoused, hreleased, hline⟩ := hx
      rw [not_and] at hhoused hreleased
      refine ⟨p, hpid, by simpa using halone, (not_ne_iff.mp hcode).symm, fun ha => ?_,
        fun hz => ?_, fun hpa => ?_, fun hpa => ?_⟩
      · simpa [Option.isSome_iff_ne_none] using hhoused ha
      · simpa using hreleased hz
      · rcases hline with ⟨-, hparent⟩ | ⟨hne, -⟩
        · simpa using hparent
        · exact absurd hpa hne
      · rcases hline with ⟨heq, -⟩ | ⟨-, hclimb⟩
        · exact absurd heq hpa
        · exact hclimb
    · intro hx
      obtain ⟨q, hq⟩ := hx
      obtain rfl := Option.some.inj (hpid.symm.trans hq.pid)
      refine ⟨by simp [hq.alone], by simp [hq.code], fun hh => ?_, fun hh => ?_, ?_⟩
      · have hspace := hq.housed hh.1
        simp [Option.isNone_iff_eq_none.mp hh.2] at hspace
      · have hspace := hh.2
        simp [hq.released hh.1] at hspace
      · by_cases hpa : p = t.adopter
        · exact .inl ⟨hpa, by simp [hq.root hpa]⟩
        · exact .inr ⟨hpa, hq.line hpa⟩

theorem auditFrom_eq_none {l : List Slot} {i : Nat} :
    t.auditFrom i l = none ↔
      ∀ j (hj : j < l.length), t.breach? l[j] (l.drop (j + 1)) = none := by
  induction l generalizing i with
  | nil => simp [auditFrom]
  | cons s later ih =>
    rw [auditFrom]
    cases hb : t.breach? s later with
    | some breach =>
      simp only [reduceCtorEq, false_iff]
      intro h
      have hfirst := h 0 (by simp)
      simp [hb] at hfirst
    | none =>
      simp only [ih]
      constructor
      · intro h j hj
        cases j with
        | zero => simpa using hb
        | succ j => simpa using h j (by simpa using hj)
      · intro h j hj
        exact h (j + 1) (Nat.succ_lt_succ hj)

/-- An audit passes a table if each slot breaks no rule, given the slots after it. -/
theorem audit_eq_none : t.audit = none ↔
    ∀ i < t.capacity, t.breach? (t.slotAt i) (t.slots.drop (i + 1)) = none := by
  rw [audit, auditFrom_eq_none]
  refine forall₂_congr fun i hi => ?_
  rw [slotAt_getElem hi]

theorem any_later {i : Nat} {p : Pid} : (t.slots.drop (i + 1)).any (·.holds p) = false ↔
    ∀ j, i < j → (t.slotAt j).holds p = false := by
  rw [List.any_eq_false]
  constructor
  · intro h j hij
    rw [Bool.eq_false_iff]
    intro hp
    have hj : j < t.slots.length := lt_capacity_of_holds hp
    refine h _ (List.mem_drop_iff_getElem.mpr ⟨j - (i + 1), by omega, ?_⟩) hp
    rw [slotAt_getElem hj]
    congr 1
    omega
  · intro h s hs
    obtain ⟨m, hm, rfl⟩ := List.mem_drop_iff_getElem.mp hs
    have hlater := h (i + 1 + m) (by omega)
    rw [slotAt_getElem (by omega)] at hlater
    simpa using hlater

theorem Legal.passes (h : t.Legal) {i : Nat} {p : Pid} (hp : (t.slotAt i).holds p = true) :
    t.Passes (t.slotAt i) p (t.slots.drop (i + 1)) := by
  obtain ⟨hu, hpid⟩ := Slot.holds_iff.mp hp
  refine ⟨hpid, any_later.mpr fun j hij => ?_, h.codes i hu, h.housed i, h.released i, ?_, ?_⟩
  · rw [Bool.eq_false_iff]
    intro hj
    have heq := h.distinct i j p hp hj
    omega
  · intro hpa
    exact h.root i (hpid.trans (congrArg some hpa))
  · intro hpa
    refine (climb_eq_none h.distinct).mpr (h.lines i hu fun hx => hpa ?_)
    exact Option.some.inj (hpid.symm.trans hx)

theorem audit_of_legal (h : t.Legal) : t.audit = none := by
  refine audit_eq_none.mpr fun i _ => ?_
  have hnamed := h.named i
  cases hu : (t.slotAt i).inUse with
  | false =>
    rw [hu] at hnamed
    exact (breach?_of_free hu).mpr (by simpa using hnamed)
  | true =>
    rw [hu] at hnamed
    obtain ⟨p, hpid⟩ := Option.isSome_iff_exists.mp hnamed
    exact (breach?_of_inUse hu).mpr ⟨p, h.passes (Slot.holds_iff.mpr ⟨hu, hpid⟩)⟩

theorem legal_of_audit (h : t.audit = none) : t.Legal := by
  have hslots : ∀ i, (t.slotAt i).inUse = true →
      ∃ p, t.Passes (t.slotAt i) p (t.slots.drop (i + 1)) := fun i hu =>
    (breach?_of_inUse hu).mp (audit_eq_none.mp h i (lt_capacity_of_inUse hu))
  have hfree : ∀ i, (t.slotAt i).inUse = false → (t.slotAt i).pid = none := by
    intro i hu
    by_cases hi : i < t.capacity
    · exact (breach?_of_free hu).mp (audit_eq_none.mp h i hi)
    · rw [slotAt_of_le (Nat.le_of_not_lt hi)]
      rfl
  have hdistinct : t.Distinct := by
    have halone : ∀ i j p, i < j → (t.slotAt i).holds p = true →
        (t.slotAt j).holds p = false := by
      intro i j p hij hi
      obtain ⟨hu, hpid⟩ := Slot.holds_iff.mp hi
      obtain ⟨q, hq⟩ := hslots i hu
      obtain rfl := Option.some.inj (hpid.symm.trans hq.pid)
      exact any_later.mp hq.alone j hij
    intro i j p hi hj
    by_contra hne
    rcases Nat.lt_or_gt_of_ne hne with hij | hji
    · simp [halone i j p hij hi] at hj
    · simp [halone j i p hji hj] at hi
  refine ⟨fun i => ?_, hdistinct, fun i hu => ?_, fun i ha => ?_, fun i hz => ?_, fun i hpid => ?_,
    fun i hu hpid => ?_⟩
  · cases hu : (t.slotAt i).inUse with
    | false => rw [hfree i hu]; rfl
    | true =>
      obtain ⟨p, hp⟩ := hslots i hu
      rw [hp.pid]
      rfl
  · obtain ⟨p, hp⟩ := hslots i hu
    exact hp.code
  · obtain ⟨p, hp⟩ := hslots i (Slot.inUse_of_alive ha)
    exact hp.housed ha
  · obtain ⟨p, hp⟩ := hslots i (Slot.inUse_of_zombie hz)
    exact hp.released hz
  · have hu : (t.slotAt i).inUse = true := by
      by_contra hf
      rw [hfree i (by simpa using hf)] at hpid
      cases hpid
    obtain ⟨p, hp⟩ := hslots i hu
    exact hp.root (Option.some.inj (hp.pid.symm.trans hpid))
  · obtain ⟨p, hp⟩ := hslots i hu
    refine (climb_eq_none hdistinct).mp (hp.line fun hpa => hpid ?_)
    rw [hp.pid, hpa]

/-- An audit passes exactly the legal tables, however deep they are. The bound on a climb changes no
verdict, and a table whose parent links go in a circle does not pass. -/
theorem audit_exact (t : Table) :
    (t.audit = none ↔ t.Legal) ∧
      (∀ steps link, t.capacity ≤ steps → t.climb steps link = t.climb t.capacity link) ∧
      ∀ i, Relation.TransGen t.Links i i → t.audit ≠ none := by
  refine ⟨⟨legal_of_audit, audit_of_legal⟩, fun _ _ => climb_of_capacity_le,
    fun i hcircle haudit => ?_⟩
  have hlegal := legal_of_audit haudit
  obtain ⟨j, ⟨hu, q, hq, -⟩, -⟩ := Relation.TransGen.head'_iff.mp hcircle
  refine hlegal.no_circle (hlegal.lines i hu fun hpid => ?_) hcircle
  rw [hlegal.root i hpid] at hq
  cases hq

end Table

end Lifecycle
