import Lifecycle.Proofs.Kernel.Exits
/-!
# The harvest

When all processes but the adopter have ended, whatever their family was and in whatever order they
ended, they are children of the adopter and wait to be collected. It collects them in the order of
their slots, each once and with its own code, and then has no children left. The table is then as
good as new: only the adopter is in it, and every identity that was ever given out can be given out
again.
-/

namespace Lifecycle

namespace Table

variable {t : Table} {parent p : Pid} {target : Target} {code : ExitCode}

theorem exists_of_status? {status : Status} (h : t.status? p = some status) :
    ∃ i < t.capacity, (t.slotAt i).holds p = true ∧ (t.slotAt i).status = status := by
  obtain ⟨i, hi, rfl⟩ := Option.map_eq_some_iff.mp h
  have hp := holds_of_slotOf? hi
  exact ⟨i, lt_capacity_of_holds hp, hp, rfl⟩

/-- All processes but the adopter have ended. -/
def Ripe (t : Table) : Prop :=
  ∀ i, i ≠ 0 → (t.slotAt i).inUse = true → (t.slotAt i).isZombie = true

theorem Ripe.drop (h : t.Ripe) {i : Nat} (hi : i < t.capacity) (pool : PidPool) :
    (t.drop i pool).Ripe := by
  intro j hj hu
  rw [slotAt_drop hi] at hu ⊢
  split at hu
  · simp at hu
  · rename_i hij
    rw [if_neg hij]
    exact h j hj hu

/-- All that a parent can collect, in slot order. -/
def remnants (t : Table) (parent : Pid) (target : Target) : List (Pid × ExitCode) :=
  t.slots.filterMap (·.remains? parent target)

/-- The first slot is the adopter's. -/
theorem Sound.exists_cons (h : t.Sound) : ∃ first rest, t.slots = first :: rest ∧
    t.slotAt 0 = first ∧ ∀ s ∈ rest, ∃ i, i ≠ 0 ∧ t.slotAt i = s := by
  have hpos : 0 < t.slots.length := h.capacity_pos
  cases hslots : t.slots with
  | nil => simp [hslots] at hpos
  | cons first rest =>
    refine ⟨first, rest, rfl, by simp [slotAt_eq, hslots], fun s hs => ?_⟩
    obtain ⟨n, hn, rfl⟩ := List.mem_iff_getElem.mp hs
    exact ⟨n + 1, Nat.succ_ne_zero n, by simp [slotAt_eq, hslots, hn]⟩

theorem remnants_eq_nil :
    t.remnants parent target = [] ↔ ∀ i, (t.slotAt i).remains? parent target = none := by
  rw [remnants, List.filterMap_eq_nil_iff]
  constructor
  · intro h i
    by_cases hi : i < t.capacity
    · exact h _ (slotAt_mem hi)
    · rw [slotAt_of_le (Nat.le_of_not_lt hi)]
      rfl
  · intro h s hs
    obtain ⟨i, -, rfl⟩ := exists_slotAt hs
    exact h i

/-- The first remnant is the one that is found, and without it the others are left. -/
theorem remnants_eq_cons {rest : List (Pid × ExitCode)}
    (h : t.remnants parent target = (p, code) :: rest) :
    ∃ i, t.find parent target = .found i p code ∧
      ∀ pool, (t.drop i pool).remnants parent target = rest := by
  obtain ⟨before, s, after, hslots, hbefore, hs, hafter⟩ := List.filterMap_eq_cons_iff.mp h
  refine ⟨before.length, find_eq_found_iff.mpr ⟨?_, fun j hj => ?_⟩, fun pool => ?_⟩
  · have hat : t.slotAt before.length = s := by simp [slotAt_eq, hslots]
    rw [hat, hs]
  · have hat : t.slotAt j = before[j] := by
      rw [slotAt_eq, hslots, List.getElem?_append_left hj, List.getElem?_eq_getElem hj]
      rfl
    rw [hat]
    exact hbefore _ (List.getElem_mem hj)
  · have hdrop : (t.drop before.length pool).slots = before ++ .blank :: after := by
      simp [drop, setSlot, hslots]
    have hnone : before.filterMap (·.remains? parent target) = [] :=
      List.filterMap_eq_nil_iff.mpr hbefore
    rw [remnants, hdrop, List.filterMap_append, hnone, List.nil_append]
    exact hafter

end Table

namespace Kernel

/-- A process waits without blocking until that fails: what it collects, and how it fails. -/
inductive Collects (parent : Pid) (target : Target) :
    Kernel → List (Pid × ExitCode) → Fault → Kernel → Prop
  | fails {k : Kernel} {fault : Fault} (h : (k.tryWait parent target).result = .error fault) :
      Collects parent target k [] fault (k.tryWait parent target).kernel
  | next {k k' : Kernel} {p : Pid} {code : ExitCode} {found : List (Pid × ExitCode)}
      {fault : Fault} (h : (k.tryWait parent target).result = .ok (some (p, code)))
      (hrest : Collects parent target (k.tryWait parent target).kernel found fault k') :
      Collects parent target k ((p, code) :: found) fault k'

variable {x : Scene}

theorem tryWait_adopter_noChildren (h : x.Sound) {target : Target}
    (hf : x.table.find x.table.adopter target = .noChildren) :
    x.kernel.tryWait x.table.adopter target = x.kernel.refuse .noChildren := by
  have halive := h.table.aliveSlot_of_holds h.table.adopter_holds h.table.adopter.alive
  simp [tryWait, halive, h.table.adopter.unkilled, hf]

theorem tryWait_adopter_found (h : x.Sound) {target : Target} {i : Nat} {p : Pid} {code : ExitCode}
    (hf : x.table.find x.table.adopter target = .found i p code) :
    x.kernel.tryWait x.table.adopter target =
      ⟨.ok (some (p, code)), { x.kernel with table := x.table.vacate i p },
        [.reaped x.table.adopter p code]⟩ := by
  have halive := h.table.aliveSlot_of_holds h.table.adopter_holds h.table.adopter.alive
  obtain ⟨hm, -, hz, -⟩ := Slot.remains?_eq_some.mp (Table.find_eq_found hf)
  have hcollect : x.kernel.collect x.table.adopter i p code = _ :=
    collect_eq h (Slot.holds_of_matching? hm) hz
  simp [tryWait, halive, h.table.adopter.unkilled, hf, hcollect, Outcome.map, Except.map]

/-! ## Nobody is blocked and only the adopter lives -/

section Ripe

variable {k : Kernel} (hs : Scene.Sound ⟨k, 0, []⟩) (hripe : k.table.Ripe)

include hs hripe in
theorem exists_remains {i : Nat} (hi : i ≠ 0) (hu : (k.table.slotAt i).inUse = true) :
    ∃ p code, (k.table.slotAt i).remains? k.table.adopter .any = some (p, code) := by
  have hz := hripe i hi hu
  have hslot := hs.table.slots i
  obtain ⟨p, hp⟩ := hslot.named hu
  obtain ⟨code, hcode⟩ := Option.isSome_iff_exists.mp (hslot.exitCode_iff.trans hz)
  obtain ⟨q, hq, j, hj, ha⟩ := hs.table.parent_alive i hi hu
  -- Only the adopter is alive, so it is everybody's parent.
  have hj0 : j = 0 := by
    by_contra hj0
    exact Table.ne_of_zombie (hripe j hj0 (Slot.inUse_of_alive ha)) ha rfl
  obtain rfl := (hs.table.eq_zero_iff hj).mp hj0
  have hmatch : (k.table.slotAt i).matching? k.table.adopter .any = some p :=
    Slot.matching?_eq_some.mpr ⟨Slot.isChildOf_iff.mpr ⟨hu, hq⟩, hp, rfl⟩
  exact ⟨p, code, Slot.remains?_eq_some.mpr ⟨hmatch, hs.waiters i, hz, hcode⟩⟩

include hs in
theorem find_adopter_noChildren (hunused : ∀ i, i ≠ 0 → (k.table.slotAt i).inUse = false) :
    k.table.find k.table.adopter .any = .noChildren := by
  refine Table.find_eq_noChildren.mpr fun i => ?_
  rw [Option.eq_none_iff_forall_ne_some]
  intro p hm
  have hi := hs.table.ne_zero_of_parent (Slot.parent_of_matching? hm)
  have hu := (Slot.holds_iff.mp (Slot.holds_of_matching? hm)).1
  rw [hunused i hi] at hu
  simp at hu

include hs hripe in
/-- The adopter collects all that is left and then has no children. -/
theorem exists_collects :
    ∃ k', k.Collects k.table.adopter .any (k.table.remnants k.table.adopter .any)
        (.refused .noChildren) k' ∧
      Scene.Sound ⟨k', 0, []⟩ ∧ k'.table.adopter = k.table.adopter ∧
      ∀ i, i ≠ 0 → (k'.table.slotAt i).inUse = false := by
  generalize hfound : k.table.remnants k.table.adopter .any = found
  induction found generalizing k with
  | nil =>
    have hunused : ∀ i, i ≠ 0 → (k.table.slotAt i).inUse = false := by
      intro i hi
      by_contra hu
      obtain ⟨p, code, hr⟩ := exists_remains hs hripe hi (by simpa using hu)
      rw [Table.remnants_eq_nil.mp hfound i] at hr
      simp at hr
    have hfail := tryWait_adopter_noChildren hs (find_adopter_noChildren hs hunused)
    have hcollects : k.Collects k.table.adopter .any [] (.refused .noChildren)
        (k.tryWait k.table.adopter .any).kernel := .fails (by rw [hfail]; rfl)
    rw [hfail] at hcollects
    exact ⟨k, hcollects, hs, rfl, hunused⟩
  | cons e rest ih =>
    obtain ⟨p, code⟩ := e
    obtain ⟨i, hfind, hrest⟩ := Table.remnants_eq_cons hfound
    obtain ⟨hm, hempty, hz, hcode⟩ := Slot.remains?_eq_some.mp (Table.find_eq_found hfind)
    have hp := Slot.holds_of_matching? hm
    have htry := tryWait_adopter_found hs hfind
    -- The first zombie goes; what is left is ripe as before.
    have hs' := hs.move (.drop hp hz hempty (Slot.parent_of_matching? hm) hcode)
    obtain ⟨k', hcollects, hk, hadopter, hunused⟩ :=
      ih hs' (hripe.drop (Table.lt_capacity_of_holds hp) _) (hrest _)
    have hnext : (k.tryWait k.table.adopter .any).kernel.Collects k.table.adopter .any rest
        (.refused .noChildren) k' := by
      rw [htry]
      exact hcollects
    exact ⟨k', .next (by rw [htry]) hnext, hk, hadopter, hunused⟩

include hs hripe in
/-- What is left belongs to all processes but the adopter, in slot order. -/
theorem map_fst_remnants : (k.table.remnants k.table.adopter .any).map Prod.fst =
    k.table.slots.tail.filterMap (·.pid) := by
  have ht : k.table.Sound := hs.table
  obtain ⟨first, rest, hslots, hfirst, hrest⟩ := ht.exists_cons
  have hnone : first.remains? k.table.adopter .any = none := by
    rw [Option.eq_none_iff_forall_ne_some]
    intro e he
    have hparent := Slot.parent_of_matching? (Slot.remains?_eq_some.mp he).1
    rw [← hfirst, ht.adopter.root] at hparent
    simp at hparent
  have hremnants : k.table.remnants k.table.adopter .any =
      rest.filterMap (·.remains? k.table.adopter .any) := by
    simp [Table.remnants, hslots, hnone]
  rw [hremnants, List.map_filterMap, hslots, List.tail_cons]
  refine List.filterMap_congr fun s hm => ?_
  obtain ⟨i, hi, rfl⟩ := hrest s hm
  by_cases hu : (k.table.slotAt i).inUse = true
  · obtain ⟨p, code, hr⟩ := exists_remains hs hripe hi hu
    rw [hr, (Slot.matching?_eq_some.mp (Slot.remains?_eq_some.mp hr).1).2.1]
    rfl
  · rw [(ht.slots i).blank (by simpa using hu)]
    rfl

end Ripe

end Kernel

namespace Table

variable {t : Table}

theorem Sound.nodup_pids (h : t.Sound) : (t.slots.filterMap (·.pid)).Nodup := by
  rw [List.Nodup, List.pairwise_filterMap, List.pairwise_iff_getElem]
  intro i j hi hj hij p hp q hq heq
  subst heq
  have hholds : ∀ {m : Nat} (hm : m < t.slots.length), t.slots[m].pid = some p →
      (t.slotAt m).holds p = true := by
    intro m hm hpid
    rw [← slotAt_getElem hm] at hpid
    refine Slot.holds_iff.mpr ⟨(h.slots m).inUse_of_ne fun hblank => ?_, hpid⟩
    rw [hblank] at hpid
    simp at hpid
  have heq := h.holds_unique i j p (hholds hi hp) (hholds hj hq)
  omega

theorem Sound.liveCount_eq_one (h : t.Sound)
    (hunused : ∀ i, i ≠ 0 → (t.slotAt i).inUse = false) : t.liveCount = 1 := by
  obtain ⟨first, rest, hslots, hfirst, hrest⟩ := h.exists_cons
  have hadopter := (Slot.holds_iff.mp h.adopter_holds).1
  have hnone : rest.countP (·.inUse) = 0 := by
    rw [List.countP_eq_zero]
    intro s hs
    obtain ⟨i, hi, rfl⟩ := hrest s hs
    simp [hunused i hi]
  rw [hfirst] at hadopter
  rw [liveCount, hslots, List.countP_cons, hnone, hadopter]
  rfl

theorem pids_ending (codes : Codes) :
    (t.ending codes).slots.tail.filterMap (·.pid) = t.slots.tail.filterMap (·.pid) := by
  show (List.map _ t.slots).tail.filterMap _ = _
  rw [← List.map_tail, List.filterMap_map]
  refine List.filterMap_congr fun s _ => ?_
  rw [Function.comp_apply]
  split <;> simp

/-- When all that run have ended, every process but the adopter has. -/
theorem Sound.isZombie_ending_of_all (h : t.Sound)
    (hall : ∀ p status, p ≠ t.adopter → t.status? p = some status →
      status = .running ∨ status = .zombie) {codes : Codes}
    (hcodes : ∀ p, p ≠ t.adopter → t.status? p = some .running →
      (codes p).isSome = true) (i : Nat) (hi : i ≠ 0)
    (hu : ((t.ending codes).slotAt i).inUse = true) :
    ((t.ending codes).slotAt i).isZombie = true := by
  rw [inUse_ending] at hu
  obtain ⟨p, hpid⟩ := (h.slots i).named hu
  have hp : (t.slotAt i).holds p = true := Slot.holds_iff.mpr ⟨hu, hpid⟩
  have hne : p ≠ t.adopter := fun heq => hi ((h.eq_zero_iff hp).mpr heq)
  have hstatus : t.status? p = some (t.slotAt i).status := by
    rw [status?, h.slotOf?_of_holds hp, Option.map_some]
  rw [isZombie_ending, Slot.endsWith?_of_holds hp, Bool.or_eq_true]
  rcases hall p _ hne hstatus with hrunning | hzombie
  · exact .inl (hcodes p hne (hrunning ▸ hstatus))
  · exact .inr (Slot.isZombie_iff.mpr hzombie)

/-- What is left of a process tells the code with which it ended, now or before. -/
theorem Sound.mem_remnants_ending (h : t.Sound) {codes : Codes} {parent p : Pid} {target : Target}
    {code : ExitCode} (he : (p, code) ∈ (t.ending codes).remnants parent target) :
    codes p = some code ∨ t.exitCode? p = some code := by
  obtain ⟨slot, hslot, hr⟩ := List.mem_filterMap.mp he
  obtain ⟨i, -, rfl⟩ := exists_slotAt hslot
  obtain ⟨hm, -, -, hcode⟩ := Slot.remains?_eq_some.mp hr
  have hp := Slot.holds_of_matching? hm
  rw [holds_ending] at hp
  rw [exitCode_ending, Slot.endsWith?_of_holds hp] at hcode
  rcases Option.or_eq_some_iff.mp hcode with hnow | ⟨-, hbefore⟩
  · exact .inl hnow
  · right
    rw [exitCode?, h.slotOf?_of_holds hp]
    exact hbefore

end Table

namespace Session

variable {config : Config} {s : Session}

/-- Nobody is blocked and every process other than the adopter is running or has ended. If those
that run end, in any order and with any codes, each exit goes through. If the adopter then waits
until that fails, it is handed every other process once, in slot order and with the code that the
process ended with, and at last has no children. Only the adopter is left, and every number that was
ever given out can be given out again. -/
theorem harvest_of_reachable (h : Reachable config s) (hnone : s.sleepers = [])
    (hall : ∀ p status, p ≠ s.kernel.table.adopter → s.kernel.table.status? p = some status →
      status = .running ∨ status = .zombie)
    (exits : List (Pid × ExitCode)) (hn : (exits.map Prod.fst).Nodup)
    (hexits : ∀ p, p ∈ exits.map Prod.fst ↔
      p ≠ s.kernel.table.adopter ∧ s.kernel.table.status? p = some .running) :
    (s.kernel.exitAll exits).result = .ok () ∧ ∃ found k,
      (s.kernel.exitAll exits).kernel.Collects s.kernel.table.adopter .any found
        (.refused .noChildren) k ∧
      found.map Prod.fst = s.kernel.table.slots.tail.filterMap (·.pid) ∧
      (found.map Prod.fst).Nodup ∧
      (∀ e ∈ found, e ∈ exits ∨ s.kernel.table.exitCode? e.1 = some e.2) ∧
      k.table.liveCount = 1 ∧
      ∀ p : Pid, p.number < k.table.pool.next → p ≠ s.kernel.table.adopter →
        p ∈ k.table.pool.returned := by
  have hscene : s.scene = ⟨s.kernel, 0, []⟩ := by simp [scene, hnone]
  have hs : Scene.Sound ⟨s.kernel, 0, []⟩ := hscene ▸ h.sound
  have hmay : ∀ e ∈ exits, s.kernel.table.MayEnd e.1 := by
    intro e he
    obtain ⟨hne, hrunning⟩ := (hexits e.1).mp (List.mem_map_of_mem he)
    exact MayEnd.table h.sound ⟨hne, .running, hrunning, .inl rfl⟩
  obtain ⟨hok, htable, hsound⟩ : (s.kernel.exitAll exits).result = .ok () ∧
      (s.kernel.exitAll exits).kernel.table = s.kernel.table.ending (.of exits) ∧
      Scene.Sound ⟨(s.kernel.exitAll exits).kernel, 0, []⟩ := Kernel.exitAll_eq hs hn hmay
  have hripe : (s.kernel.exitAll exits).kernel.table.Ripe := by
    rw [htable]
    refine hs.table.isZombie_ending_of_all hall fun p hne hrunning => ?_
    obtain ⟨e, he, rfl⟩ := List.mem_map.mp ((hexits p).mpr ⟨hne, hrunning⟩)
    rw [(Codes.of_eq_some hn).mpr he]
    rfl
  obtain ⟨k, hcollects, hk, hadopter, hunused⟩ := Kernel.exists_collects hsound hripe
  have hpids := Kernel.map_fst_remnants hsound hripe
  rw [htable] at hcollects hadopter hpids
  rw [Table.pids_ending] at hpids
  refine ⟨hok, _, k, hcollects, hpids, ?_, fun e he => ?_, hk.table.liveCount_eq_one hunused, ?_⟩
  · rw [hpids]
    exact hs.table.nodup_pids.sublist ((List.tail_sublist _).filterMap _)
  · exact (hs.table.mem_remnants_ending he).imp_left (Codes.of_eq_some hn).mp
  · intro p hlt hne
    have hissued := (hk.accounted.issued_iff p).mp ⟨hlt, fun heq => hne (heq.trans hadopter)⟩
    refine hissued.resolve_right fun hx => ?_
    obtain ⟨i, hi, hp⟩ := hx
    have hu := (Slot.holds_iff.mp hp).1
    rw [hunused i hi] at hu
    simp at hu

/-- A child, a grandchild and a child of the grandchild, which has ended. -/
def dynasty : List Act :=
  [.serve (.create ⟨1⟩ []), .serve (.transition ⟨0⟩ .running), .serve (.create ⟨0⟩ []),
    .serve (.transition ⟨2⟩ .running), .serve (.create ⟨2⟩ []), .serve (.transition ⟨3⟩ .running),
    .serve (.exit ⟨3⟩ 9)]

theorem harvest_of_dynasty :
    ∃ s found k, run ⟨5, ⟨1⟩⟩ dynasty = .ok s ∧
      s.kernel.table.profiles.map (·.parent) = [none, some ⟨1⟩, some ⟨0⟩, some ⟨2⟩] ∧
      (s.kernel.exitAll [(⟨2⟩, 4), (⟨0⟩, 3)]).result = .ok () ∧
      (s.kernel.exitAll [(⟨2⟩, 4), (⟨0⟩, 3)]).kernel.Collects ⟨1⟩ .any found
        (.refused .noChildren) k ∧
      found.map Prod.fst = [⟨0⟩, ⟨2⟩, ⟨3⟩] ∧ k.table.liveCount = 1 := by
  have hrun : run ⟨5, ⟨1⟩⟩ dynasty = .ok _ := rfl
  have hharvest := harvest_of_reachable (.run hrun) rfl ?_ [(⟨2⟩, 4), (⟨0⟩, 3)] (by decide) ?_
  · obtain ⟨hok, found, k, hcollects, hpids, -, -, hcount, -⟩ := hharvest
    exact ⟨_, found, k, hrun, by decide, hok, hcollects, hpids.trans (by decide), hcount⟩
  · intro p status hne hstatus
    obtain ⟨i, hi, hp, rfl⟩ := Table.exists_of_status? hstatus
    change i < 5 at hi
    obtain rfl | rfl | rfl | rfl | rfl : i = 0 ∨ i = 1 ∨ i = 2 ∨ i = 3 ∨ i = 4 := by omega
    · exact absurd (Slot.holds_inj hp rfl) hne
    · exact .inl rfl
    · exact .inl rfl
    · exact .inr rfl
    · exact absurd hp Bool.false_ne_true
  · intro p
    constructor
    · intro hm
      have hcases : p = ⟨2⟩ ∨ p = ⟨0⟩ := by simpa using hm
      rcases hcases with rfl | rfl <;> exact ⟨by decide, rfl⟩
    · intro hx
      obtain ⟨hne, hrunning⟩ := hx
      obtain ⟨i, hi, hp, hstatus⟩ := Table.exists_of_status? hrunning
      change i < 5 at hi
      obtain rfl | rfl | rfl | rfl | rfl : i = 0 ∨ i = 1 ∨ i = 2 ∨ i = 3 ∨ i = 4 := by omega
      · exact absurd (Slot.holds_inj hp rfl) hne
      · obtain rfl : p = ⟨0⟩ := Slot.holds_inj hp rfl
        decide
      · obtain rfl : p = ⟨2⟩ := Slot.holds_inj hp rfl
        decide
      · exact absurd hstatus (by decide)
      · exact absurd hp Bool.false_ne_true

end Session

end Lifecycle
