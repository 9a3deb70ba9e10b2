import Lifecycle.Proofs.Threads.Acts
/-!
# What a turn means for the kernel

A turn is moves on the kernel that do at most one deed. Others write to the slot that a thread
stands on only when a caller is blocked on it, to wake the process or to mark it; so a turn leaves
every living process outside its own slot at rest, and its own thread finds what it expects
afterwards. A turn starts at most one thread, for the process that was born in it.
-/

namespace Lifecycle

namespace Table

variable {t : Table}

/-- Where the adopter has no child there is nobody but it. -/
theorem Sound.alone (hs : t.Sound) (hr : t.Ranked)
    (h : ∀ i, (t.slotAt i).isChildOf t.adopter = false) (i : Nat) (hi : i ≠ 0) :
    (t.slotAt i).inUse = false := by
  obtain ⟨rank, -, hrank⟩ := hr
  -- a process of least rank would be a child of the adopter
  suffices hnone : ∀ n i p, rank p = n → i ≠ 0 → (t.slotAt i).holds p = true → False by
    by_contra hu
    rw [Bool.not_eq_false] at hu
    obtain ⟨p, hp⟩ := (hs.slots i).named hu
    exact hnone _ i p rfl hi (Slot.holds_iff.mpr ⟨hu, hp⟩)
  intro n
  induction n using Nat.strongRecOn with
  | _ n ih =>
    intro i p hn hi hp
    obtain ⟨q, hq, j, hj, -⟩ := hs.parent_alive i hi (Slot.holds_iff.mp hp).1
    by_cases hj0 : j = 0
    · have hadopter := (hs.eq_zero_iff hj).mp hj0
      have hchild := h i
      rw [Bool.eq_false_iff, ne_eq, Slot.isChildOf_iff] at hchild
      exact hchild ⟨(Slot.holds_iff.mp hp).1, hadopter ▸ hq⟩
    · exact ih (rank q) (hn ▸ hrank i p q hp hq) j q rfl hj0 hj

/-- Where the adopter is alone it is the only process there is. -/
theorem Sound.holds_iff_of_alone (hs : t.Sound) (ha : t.Alone) {i : Nat} {p : Pid} :
    (t.slotAt i).holds p = true ↔ i = 0 ∧ p = t.adopter := by
  constructor
  · intro hp
    have hi : i = 0 := by
      by_contra hi
      have hu := (Slot.holds_iff.mp hp).1
      rw [ha i hi] at hu
      cases hu
    subst hi
    exact ⟨rfl, Slot.holds_inj hp hs.adopter_holds⟩
  · rintro ⟨rfl, rfl⟩
    exact hs.adopter_holds

end Table

variable {σ μ ν : Type}

/-- A thread is gone, or it finds its process in the slot that it stands on. -/
def Phase.Stands (ph : Phase σ) (t : Table) (p : Pid) (j : Nat) : Prop :=
  ph = .gone ∨ (t.slotAt j).holds p = true ∧ ph.Fits p j (t.slotAt j)

theorem Phase.Stands.rests {ph : Phase σ} {t t' : Table} {p : Pid} {i j : Nat}
    (h : ph.Stands t p j) (hs : t.Spares t' i) (hij : j ≠ i) : ph.Stands t' p j := by
  refine h.imp_right fun ⟨hp, hfits⟩ => ?_
  have hrests := hs j hij hfits.alive
  exact ⟨hrests.holds hp, hfits.rests hrests⟩

/-- What a turn means for the kernel: moves that do its deed, everybody outside one slot at rest, and
at most one new process with a thread of its own. -/
structure Program.Effect (k : Kernel) (others mine : Multiset Waiter) (j : Nat) (d : Option Deed)
    (k' : Kernel) (mine' : Multiset Waiter) (started : List (Thread σ)) : Prop where
  moves : Scene.Moves ⟨k, mine + others, []⟩ d.toList ⟨k', mine' + others, []⟩
  housed : ∀ i, (k'.table.slotAt i).Housed
  spares : k.table.Spares k'.table j
  started : started = [] ∨
    ∃ q parent st, started = [⟨q, .starting st⟩] ∧ k.table.Gains q parent k'.table

/-- A gentle request disturbs nobody. -/
theorem Program.effect_serve {k : Kernel} {others mine : Multiset Waiter} {r : Request}
    (h : Scene.Sound ⟨k, mine + others, []⟩) (hh : ∀ i, (k.table.slotAt i).Housed)
    (hr : r.isGentle = true) (j : Nat) :
    Effect k others mine j none (k.serve r).kernel mine ([] : List (Thread σ)) := by
  obtain ⟨hresult, hspares, hhouses⟩ := Kernel.serve_gentle (k := k) hr
  have hmoves := Session.led_serve h r
  rw [Outcome.Led] at hmoves
  refine ⟨?_, fun i => hhouses i (hh i), hspares j, .inl rfl⟩
  rcases hresult with ⟨a, ha, hnone⟩ | ⟨why, hwhy⟩
  · simp only [ha, hnone] at hmoves
    exact hmoves
  · simp only [hwhy] at hmoves
    exact hmoves

/-- The caller that a wait leaves blocked, if it does. -/
def Outcome.sleeper (o : Outcome Waiting) : Multiset Waiter :=
  match o.result with
  | .ok (.asleep w) => {w}
  | _ => 0

theorem Outcome.blockedBeside_eq (o : Outcome Waiting) (others : Multiset Waiter) :
    o.blockedBeside others = o.sleeper + others := by
  rw [blockedBeside, sleeper]
  cases o.result with
  | error fault => exact (Multiset.zero_add others).symm
  | ok waiting =>
    cases waiting with
    | collected p code => exact (Multiset.zero_add others).symm
    | asleep w => exact (Multiset.singleton_add w others).symm

/-- What a wait means for the kernel: it collects, goes to sleep or does nothing. -/
theorem Kernel.Looks.effect {k : Kernel} {mine others : Multiset Waiter} {j : Nat} {p : Pid}
    {o : Outcome Waiting} {y : Scene} {target : Target}
    (h : Kernel.Looks k mine others j p o y target) (hh : ∀ i, (k.table.slotAt i).Housed) :
    Program.Effect k others mine j (o.deed? p) o.kernel o.sleeper ([] : List (Thread σ)) := by
  refine ⟨?_, fun i => h.houses_after i (hh i), h.spares_after, .inl rfl⟩
  rw [← o.deeds_eq, ← o.blockedBeside_eq]
  exact h.moves_deeds

namespace Machine.Seated

variable {prog : Program σ μ ν} {k k' : Kernel} {others : Multiset Waiter} {p : Pid} {j : Nat}
  {ph ph' : Phase σ} {d : Option Deed} {started : List (Thread σ)} {notes : List ν} {st : σ}
  {next : Status}

open Program

/-- A change of the own status is a move, and touches nobody else. -/
private theorem effect_status (h : Seated k others p j ph)
    (hok : (k.transition p next).result = .ok ())
    (htable : (k.transition p next).kernel.table =
      k.table.modifySlot j fun s => { s with status := next }) :
    Scene.Moves ⟨k, ph.callers + others, []⟩ []
      ⟨(k.transition p next).kernel, ph.callers + others, []⟩ ∧
    (∀ i, ((k.transition p next).kernel.table.slotAt i).Housed) ∧
    k.table.Spares (k.transition p next).kernel.table j ∧
    ((k.transition p next).kernel.table.slotAt j).holds p = true ∧
    (k.transition p next).kernel.table.slotAt j = { k.table.slotAt j with status := next } := by
  have hlt := Table.lt_capacity_of_holds h.holds
  have hmoves := Kernel.led_transition (x := ⟨k, ph.callers + others, []⟩) p next
  rw [Outcome.Led] at hmoves
  rw [hok] at hmoves
  have hslot : (k.transition p next).kernel.table.slotAt j =
      { k.table.slotAt j with status := next } := by
    rw [htable, Table.slotAt_modifySlot hlt, if_pos rfl]
  refine ⟨hmoves, fun i => ?_, ?_, ?_, hslot⟩
  · rcases Kernel.housed_transition next (h.housed i) with hi | ⟨-, hslotOf, hused⟩
    · exact hi
    · -- the process of a thread is not one that is only set up
      obtain rfl := Option.some.inj ((h.sound.table.slotOf?_of_holds h.holds).symm.trans hslotOf)
      have halive := h.fits.alive
      rw [hused] at halive
      cases halive
  · rw [htable]
    exact Table.spares_modifySlot hlt _
  · rw [(hmoves.continues.slots j).holds]
    exact h.holds

theorem effect_shift (h : Seated k others p j ph) (hs : prog.Shifts p ph next ph') :
    Effect k others ph.callers j none (k.transition p next).kernel ph'.callers
      ([] : List (Thread σ)) ∧
      ph'.Stands (k.transition p next).kernel.table p j := by
  obtain ⟨-, hok, htable⟩ := h.shift hs
  obtain ⟨hmoves, hhoused, hspares, hholds, hslot⟩ := h.effect_status hok htable
  have hfits := h.fits
  have hcallers : ph'.callers = ph.callers := by cases hs <;> rfl
  refine ⟨⟨?_, hhoused, hspares, .inl rfl⟩, .inr ⟨hholds, ?_⟩⟩
  · rw [hcallers]
    exact hmoves
  · rw [hslot]
    cases hs with
    | start => exact ⟨rfl, hfits.2⟩
    | nap _ => exact ⟨rfl, hfits.2⟩
    | yield _ => exact ⟨rfl, hfits.2⟩
    | rise => exact ⟨rfl, hfits.2⟩

theorem effect_calls {reply : Reply} {st' : σ} (h : Seated k others p j ph) (hg : prog.Gentle)
    (hc : prog.Calls k p ph st d k' started reply) :
    Effect k others ph.callers j d k' 0 started ∧
      (Phase.active st').Stands k'.table p j := by
  have hholds := h.holds
  have hfits := h.fits
  -- what leaves the process of the thread at rest leaves it running
  have hrest : ∀ {st₀ : σ} {k₁ : Kernel}, Phase.Fits p j (k.table.slotAt j) (.active st₀) →
      (∀ m, k.table.Spares k₁.table m) → (k₁.table.slotAt j).holds p = true ∧
        Phase.Fits p j (k₁.table.slotAt j) (.active st') := by
    intro st₀ k₁ hactive hspares
    have hself := hspares (j + 1) j (Nat.ne_of_lt (Nat.lt_succ_self j)) h.fits.alive
    exact ⟨hself.holds hholds, hactive.rests hself⟩
  cases hc with
  | self asks => exact ⟨⟨.refl, h.housed, .refl _ j, .inl rfl⟩, .inr ⟨hholds, hfits⟩⟩
  | full asks full => exact ⟨⟨.refl, h.housed, .refl _ j, .inl rfl⟩, .inr ⟨hholds, hfits⟩⟩
  | @forked st child q asks ok =>
    have hgains := Kernel.fork_gains h.sound ok
    have hmoves := Kernel.led_fork (x := ⟨k, (Phase.active st).callers + others, []⟩) p
    rw [Outcome.Led] at hmoves
    rw [ok] at hmoves
    exact ⟨⟨hmoves, fun i => k.houses_fork p i (h.housed i), hgains.spares j,
      .inr ⟨q, p, child, rfl, hgains⟩⟩, .inr (hrest hfits hgains.spares)⟩
  | @collected ph st target o q code waits ok =>
    obtain ⟨y, hlooks⟩ := h.waits waits
    obtain ⟨-, hp, hrunning, hfree⟩ := hlooks.awake fun w hw => by
      rw [ok] at hw
      cases hw
    have heffect := hlooks.effect (σ := σ) h.housed
    rw [Outcome.deed?, Outcome.sleeper, ok] at heffect
    exact ⟨heffect, .inr ⟨hp, hrunning, hfree⟩⟩
  | @refused ph st target o why waits error =>
    obtain ⟨y, hlooks⟩ := h.waits waits
    obtain ⟨-, hp, hrunning, hfree⟩ := hlooks.awake fun w hw => by
      rw [error] at hw
      cases hw
    have heffect := hlooks.effect (σ := σ) h.housed
    rw [Outcome.deed?, Outcome.sleeper, error] at heffect
    exact ⟨heffect, .inr ⟨hp, hrunning, hfree⟩⟩
  | @served st r a asks ok =>
    have hspares := (Kernel.serve_gentle (k := k) (hg.asks p st r asks)).2.1
    exact ⟨effect_serve h.sound h.housed (hg.asks p st r asks) j, .inr (hrest hfits hspares)⟩
  | @denied st r why asks error =>
    have hspares := (Kernel.serve_gentle (k := k) (hg.asks p st r asks)).2.1
    exact ⟨effect_serve h.sound h.housed (hg.asks p st r asks) j, .inr (hrest hfits hspares)⟩
  | @awake st ok =>
    obtain ⟨hok, htable⟩ := h.awake
    obtain ⟨hmoves, hhoused, hspares, hp, hslot⟩ := h.effect_status hok htable
    refine ⟨⟨hmoves, hhoused, hspares, .inl rfl⟩, .inr ⟨hp, ?_⟩⟩
    rw [hslot]
    exact ⟨rfl, hfits.2⟩

theorem effect_sleep {target : Target} {o : Outcome Waiting} {w : Waiter}
    (h : Seated k others p j ph) (hw : prog.Waits k p ph st target o) (ok : o.result = .ok (.asleep w)) :
    Effect k others ph.callers j none o.kernel {w} ([] : List (Thread σ)) ∧
      (Phase.blocked st w).Stands o.kernel.table p j := by
  obtain ⟨y, hlooks⟩ := h.waits hw
  obtain ⟨-, hcaller, hp, halive, hone⟩ := hlooks.asleep ok
  have heffect := hlooks.effect (σ := σ) h.housed
  rw [Outcome.deed?, Outcome.sleeper, ok] at heffect
  refine ⟨heffect, .inr ⟨hp, ?_⟩⟩
  rw [Phase.Fits, hcaller]
  exact ⟨rfl, rfl, halive, hone⟩

theorem effect_finish (h : Seated k others p j (.active st)) (code : ExitCode) :
    Effect k others 0 j (some (.ended p code)) (k.exit p code).kernel 0 ([] : List (Thread σ)) := by
  obtain ⟨hok, hspares, -⟩ := Kernel.exit_running h.sound h.holds h.fits.1 h.other code
  have hmoves := Kernel.led_exit h.sound p code
  rw [Outcome.Led] at hmoves
  simp only [hok] at hmoves
  exact ⟨hmoves, fun i => (k.keeps_exit p code).houses i (h.housed i), hspares, .inl rfl⟩

/-- What the turn of a seated thread means for the kernel. -/
theorem effect (h : Seated k others p j ph) (hg : prog.Gentle)
    (ha : prog.Acts k p ph d k' ph' started notes) :
    Effect k others ph.callers j d k' ph'.callers started ∧ ph'.Stands k'.table p j := by
  cases ha with
  | shift shifts ok => exact h.effect_shift shifts
  | hear calls => exact h.effect_calls hg calls
  | sleep waits ok => exact h.effect_sleep waits ok
  | finish returns ok => exact ⟨h.effect_finish _, .inl rfl⟩

end Machine.Seated

namespace Machine.Presides

variable {prog : Program σ μ ν} {k k' : Kernel} {others : Multiset Waiter} {mp mp' : MainPhase μ}
  {d : Option Deed} {started : List (Thread σ)} {notes : List ν} {allGone : Prop}
  {reaped : List (Pid × ExitCode)} {o : Outcome Waiting}

open Program

theorem effect_create {st st' : μ} (h : Presides k others (.directing st)) (parent : Pid) :
    (∀ q child, (k.create parent defaultImage).result = .ok q →
      Effect k others 0 0 (some (.born q)) (k.create parent defaultImage).kernel 0
        [⟨q, Phase.starting (child : σ)⟩] ∧
      (MainPhase.directing st').Fits (k.create parent defaultImage).kernel.table) ∧
    ∀ why, (k.create parent defaultImage).result = .error (.refused why) →
      Effect k others 0 0 none (k.create parent defaultImage).kernel 0 ([] : List (Thread σ)) ∧
      (MainPhase.directing st').Fits (k.create parent defaultImage).kernel.table := by
  have hmoves := Kernel.led_create (x := ⟨k, 0 + others, []⟩) parent defaultImage
  rw [Outcome.Led] at hmoves
  have hhoused := fun i => k.houses_create parent defaultImage i (h.housed i)
  refine ⟨fun q child hq => ?_, fun why hwhy => ?_⟩
  · have hgains := Kernel.create_gains h.sound hq
    have hself := hgains.spares 1 0 (by decide) h.sound.table.adopter.alive
    simp only [hq] at hmoves
    exact ⟨⟨hmoves, hhoused, hgains.spares 0, .inr ⟨q, parent, child, rfl, hgains⟩⟩,
      (hself.status h.fits.2).trans h.fits.1, hself.waiters.trans h.fits.2⟩
  · have hkernel : (k.create parent defaultImage).kernel = k := Kernel.atomic_create _ hwhy
    simp only [hwhy] at hmoves
    refine ⟨⟨hmoves, hhoused, ?_, .inl rfl⟩, ?_⟩ <;> rw [hkernel]
    · exact .refl _ 0
    · exact h.fits

theorem effect_gathers (h : Presides k others mp) (hg : Gathers k mp reaped o) :
    (∀ q code, o.result = .ok (.collected q code) →
      Effect k others mp.callers 0 (some (.collected k.table.adopter q code)) o.kernel 0
          ([] : List (Thread σ)) ∧
        (MainPhase.collecting (reaped ++ [(q, code)]) : MainPhase μ).Fits o.kernel.table) ∧
    (∀ w, o.result = .ok (.asleep w) →
      Effect k others mp.callers 0 none o.kernel {w} ([] : List (Thread σ)) ∧
        (MainPhase.blocked reaped w : MainPhase μ).Fits o.kernel.table) ∧
    (o.result = .error (.refused .noChildren) →
      Effect k others mp.callers 0 none o.kernel 0 ([] : List (Thread σ)) ∧
        (MainPhase.joining reaped : MainPhase μ).Fits o.kernel.table) := by
  obtain ⟨y, hlooks⟩ := h.gathers hg
  have heffect := hlooks.effect (σ := σ) h.housed
  rw [Outcome.deed?, Outcome.sleeper] at heffect
  refine ⟨fun q code hr => ?_, fun w hr => ?_, fun hr => ?_⟩
  · obtain ⟨-, -, hrunning, hfree⟩ := hlooks.awake fun w hw => by
      rw [hr] at hw
      cases hw
    rw [hr] at heffect
    exact ⟨heffect, hrunning, hfree⟩
  · obtain ⟨-, hcaller, -, -, hone⟩ := hlooks.asleep hr
    rw [hr] at heffect
    have hadopter : o.kernel.table.adopter = k.table.adopter := heffect.moves.continues.adopter
    refine ⟨heffect, ?_, hone⟩
    rw [hadopter]
    exact hcaller
  · obtain ⟨w, hr'⟩ | ⟨q, code, hr'⟩ | ⟨-, hchildless⟩ := h.answered hg
    · rw [hr] at hr'
      cases hr'
    · rw [hr] at hr'
      cases hr'
    · rw [hr] at heffect
      have hsound := h.sound.moves heffect.moves
      exact ⟨heffect, hsound.table.alone hsound.ranked hchildless⟩

/-- When the adopter is alone the table passes the audit. -/
theorem conclude_eq (h : Presides k others (.joining reaped : MainPhase μ)) :
    Machine.conclude k reaped = .ok reaped := by
  have haudit : k.table.audit = none := by
    rw [Option.eq_none_iff_forall_ne_some]
    intro v hv
    exact h.sound.table.not_housed_of_audit h.sound.ranked hv (h.housed v.slot)
  have hlive : k.table.liveCount = 1 := h.sound.table.liveCount_eq_one h.fits
  unfold Machine.conclude
  rw [haudit, hlive]
  rfl

/-- What a turn of the main thread means for the kernel. -/
theorem effect (h : Presides k others mp) (hg : prog.Gentle)
    (hl : prog.Leads k allGone mp d k' mp' started notes) :
    Effect k others mp.callers 0 d k' mp'.callers started ∧ mp'.Fits k'.table := by
  cases hl with
  | begin leads => exact ⟨⟨.refl, h.housed, .refl _ 0, .inl rfl⟩, h.fits⟩
  | fail leads => exact ⟨⟨.refl, h.housed, .refl _ 0, .inl rfl⟩, trivial⟩
  | spawned leads ok => exact (h.effect_create _).1 _ _ ok
  | refused leads error => exact (h.effect_create _).2 _ error
  | @served st r a leads ok =>
    have hself := (Kernel.serve_gentle (k := k) (hg.leads st r leads)).2.1 1 0 (by decide)
      h.sound.table.adopter.alive
    exact ⟨effect_serve h.sound h.housed (hg.leads st r leads) 0,
      (hself.status h.fits.2).trans h.fits.1, hself.waiters.trans h.fits.2⟩
  | @denied st r why leads error =>
    have hself := (Kernel.serve_gentle (k := k) (hg.leads st r leads)).2.1 1 0 (by decide)
      h.sound.table.adopter.alive
    exact ⟨effect_serve h.sound h.housed (hg.leads st r leads) 0,
      (hself.status h.fits.2).trans h.fits.1, hself.waiters.trans h.fits.2⟩
  | collect gathers ok => exact (h.effect_gathers gathers).1 _ _ ok
  | sleep gathers ok => exact (h.effect_gathers gathers).2.1 _ ok
  | join gathers error => exact (h.effect_gathers gathers).2.2 error
  | conclude done =>
    rw [h.conclude_eq]
    exact ⟨⟨.refl, h.housed, .refl _ 0, .inl rfl⟩, h.fits⟩

end Machine.Presides

end Lifecycle
