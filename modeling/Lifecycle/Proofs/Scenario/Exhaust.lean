import Lifecycle.Proofs.Kernel.Tenancies
import Lifecycle.Proofs.Scenario.Stress
import Lifecycle.Scenario.Exhaust
/-!
# A table that fills up and recovers

While children of the adopter are created one after the other, the identities and the slots go up one
by one, whichever number the adopter has. In a full table nothing can be created, and a zombie in it
changes nothing about that. Once the zombie has been collected, its identity is the next one and its
slot the only free one, so the table becomes just what it was.
-/

namespace Lifecycle

namespace Table

variable {t t' : Table} {i : Nat}

theorem freeSlot?_eq_none : t.freeSlot? = none ↔ ∀ i < t.capacity, (t.slotAt i).inUse = true := by
  rw [freeSlot?, List.findIdx?_eq_none_iff]
  constructor
  · intro h i hi
    simpa using h _ (slotAt_mem hi)
  · intro h s hs
    obtain ⟨i, hi, rfl⟩ := exists_slotAt hs
    rw [h i hi]
    rfl

/-- A full table stays full while the slot that is touched is in use. -/
theorem Touches.full (h : t.Touches i t') (hu : (t'.slotAt i).inUse = true)
    (hfull : t.freeSlot? = none) : t'.freeSlot? = none := by
  rw [freeSlot?_eq_none, h.capacity]
  intro j hj
  by_cases hij : i = j
  · rw [← hij, hu]
  · rw [h.rest j hij]
    exact freeSlot?_eq_none.mp hfull j hj

end Table

namespace Kernel

variable {k : Kernel} {parent p : Pid} {target : Target} {code : ExitCode}

/-- A wait that need not block collects what a wait does that does not block. -/
theorem wait_collected (h : (k.tryWait parent target).result = .ok (some (p, code))) :
    (k.wait parent target).result = .ok (.collected p code) ∧
      (k.wait parent target).kernel = (k.tryWait parent target).kernel := by
  obtain ⟨hresult, hkernel⟩ := k.wait_tryWait parent target
  refine ⟨?_, hkernel (by rw [h]; nofun)⟩
  rw [h] at hresult
  cases hr : (k.wait parent target).result with
  | error fault =>
    rw [hr] at hresult
    cases hresult
  | ok waiting =>
    rw [hr] at hresult
    cases waiting with
    | asleep w => cases hresult
    | collected q code' =>
      cases hresult
      rfl

theorem wait_refused {fault : Fault} (h : (k.tryWait parent target).result = .error fault) :
    (k.wait parent target).result = .error fault ∧
      (k.wait parent target).kernel = (k.tryWait parent target).kernel := by
  obtain ⟨hresult, hkernel⟩ := k.wait_tryWait parent target
  refine ⟨?_, hkernel (by rw [h]; nofun)⟩
  rw [h] at hresult
  cases hr : (k.wait parent target).result with
  | error fault' =>
    rw [hr] at hresult
    cases hresult
    rfl
  | ok waiting =>
    rw [hr] at hresult
    cases hresult

/-- A full table refuses to reserve anything. -/
theorem allocate_full {j : Nat} (ha : k.table.aliveSlot parent = .ok j)
    (hfull : k.table.freeSlot? = none) : k.allocate parent = k.refuse .tableFull := by
  rw [allocate, reserve, ha, hfull]
  rfl

namespace Busy

variable {i j : Nat} {regions : List Region}

/-- Where a slot is free a running process gets a child, which can be made to run. -/
theorem create_free (h : k.Busy) (regions : List Region) (hp : (k.table.slotAt j).holds p = true)
    (hr : (k.table.slotAt j).status = .running)
    (hb : (AddressSpace.ofRegions regions).result = .ok ()) (hfree : k.table.freeSlot? = some i) :
    let made := k.create p regions
    let started := made.kernel.transition k.table.pool.issue.1 .running
    made.result = .ok k.table.pool.issue.1 ∧ started.result = .ok () ∧ started.kernel.Busy ∧
      made.kernel.table.Continues started.kernel.table ∧
      started.kernel.table.pool = k.table.pool.issue.2 ∧
      ∀ m, (started.kernel.table.slotAt m).tenancy =
        if i = m then .live k.table.pool.issue.1 p else (k.table.slotAt m).tenancy := by
  intro made started
  have halive : k.table.aliveSlot p = .ok j := h.table.aliveSlot_of_holds hp (by rw [hr]; rfl)
  obtain ⟨hresult, hkernel⟩ := (create_eq_install k hb).trans (install_seated halive hfree)
  change made.result = .ok k.table.pool.issue.1 at hresult
  change made.kernel = _ at hkernel
  have hi := (Table.freeSlot?_eq_some.mp hfree).1
  obtain ⟨hok, hbusy, -⟩ := h.start (led_create (x := ⟨k, 0, []⟩) p regions) hresult
    (create_gains h.sound hresult)
  have hled := led_transition (x := ⟨made.kernel, 0, []⟩) k.table.pool.issue.1 .running
  rw [Outcome.Led, hok] at hled
  obtain ⟨hpool, htenancy⟩ := hled.tenancies
  refine ⟨hresult, hok, hbusy, hled.continues, hpool.trans (by rw [hkernel]; rfl), fun m => ?_⟩
  refine (htenancy m).trans ?_
  rw [hkernel]
  show ((k.table.seat i p _).slotAt m).tenancy = _
  rw [Table.slotAt_seat hi]
  split <;> rfl

theorem create_full (h : k.Busy) (hp : (k.table.slotAt j).holds p = true)
    (hr : (k.table.slotAt j).status = .running)
    (hb : (AddressSpace.ofRegions regions).result = .ok ()) (hfull : k.table.freeSlot? = none) :
    (k.create p regions).result = .error (.refused .tableFull) ∧
      (k.create p regions).kernel = k := by
  have halive : k.table.aliveSlot p = .ok j := h.table.aliveSlot_of_holds hp (by rw [hr]; rfl)
  obtain ⟨hresult, -⟩ := (create_eq_install k hb).trans (.of_eq (install_full halive hfull))
  exact ⟨hresult, atomic_create _ hresult⟩

theorem tenancies_exit (h : k.Busy) (hok : (k.exit p code).result = .ok ()) :
    (k.exit p code).kernel.table.pool = k.table.pool ∧
      ∀ m, ((k.exit p code).kernel.table.slotAt m).tenancy =
        (k.table.slotAt m).tenancy.ended k.table.adopter p code := by
  have hled := led_exit h.sound p code
  rw [Outcome.Led, hok] at hled
  exact hled.tenancies_ended h.sound

theorem tenancies_collect (h : k.Busy)
    (hok : (k.tryWait parent target).result = .ok (some (p, code))) :
    (k.tryWait parent target).kernel.table.pool =
        { k.table.pool with returned := p :: k.table.pool.returned } ∧
      ∃ i, (k.table.slotAt i).tenancy = .dead p parent code ∧
        ∀ m, ((k.tryWait parent target).kernel.table.slotAt m).tenancy =
          if i = m then .vacant else (k.table.slotAt m).tenancy := by
  have hled := led_tryWait h.sound parent target
  rw [Outcome.Led, hok] at hled
  exact hled.tenancies_collected

end Busy

end Kernel

namespace Scenario

namespace Play

variable {σ : Type} {b : Bench σ} {parent p : Pid} {target : Target} {code : ExitCode}

theorem yields_collect {post : Except Fault (Pid × ExitCode) → Bench σ → Prop}
    (h : (b.kernel.wait parent target).result = .ok (.collected p code)) :
    Yields (collect parent target) b post ↔
      post (.ok (p, code)) (b.after (b.kernel.wait parent target)) := by
  rw [collect, yields_bind, yields_attempt, h]
  exact yields_pure

theorem yields_collect_refused {post : Except Fault (Pid × ExitCode) → Bench σ → Prop}
    {fault : Fault} (h : (b.kernel.wait parent target).result = .error fault) :
    Yields (collect parent target) b post ↔
      post (.error fault) (b.after (b.kernel.wait parent target)) := by
  rw [collect, yields_bind, yields_attempt, h]
  exact yields_pure

/-- Once all others have ended, the adopter collects until it is alone. -/
theorem collectAll_yields (h : b.kernel.Busy) (hripe : b.kernel.table.Ripe) {waits : Nat}
    (hw : b.kernel.table.liveCount ≤ waits) (reaped : List (Pid × ExitCode)) :
    Yields (collectAll waits reaped) b fun _ b' => b'.kernel.Busy ∧ b'.kernel.table.Alone ∧
      b'.kernel.table.adopter = b.kernel.table.adopter := by
  induction waits generalizing b reaped with
  | zero => exact absurd h.table.liveCount_pos hw.not_gt
  | succ waits ih =>
    rw [collectAll, yields_bind, yields_table, yields_bind]
    by_cases ha : b.kernel.table.Alone
    · have htry : b.kernel.tryWait b.kernel.table.adopter .any = b.kernel.refuse .noChildren :=
        Kernel.tryWait_adopter_noChildren h.sound (Kernel.find_adopter_noChildren h.sound ha)
      obtain ⟨hwait, hkernel⟩ := Kernel.wait_refused (congrArg Outcome.result htry)
      rw [htry] at hkernel
      rw [yields_collect_refused hwait]
      refine yields_pure.mpr ?_
      rw [Bench.after, hkernel]
      exact ⟨h, ha, rfl⟩
    · obtain ⟨q, code, j, hok, hbusy, htouches, -, -, hripe', hlive⟩ := h.harvest hripe ha
      obtain ⟨hwait, hkernel⟩ := Kernel.wait_collected hok
      rw [yields_collect hwait]
      dsimp only
      rw [yields_bind, yields_tell, Bench.after, hkernel]
      refine (ih hbusy hripe' ?_ _).mono fun _ b' hb' => ?_
      · exact Nat.le_of_succ_le_succ (hlive.trans_le hw)
      · exact ⟨hb'.1, hb'.2.1, hb'.2.2.trans htouches.adopter⟩

/-- Once all others have ended, the adopter collects them all and the table is in order. -/
theorem settle_yields (h : b.kernel.Busy) (hripe : b.kernel.table.Ripe) :
    Yields settle b fun _ b' => b'.kernel.Busy ∧ b'.kernel.table.Alone ∧
      b'.kernel.table.adopter = b.kernel.table.adopter := by
  rw [settle, yields_bind, yields_table, yields_bind]
  refine (collectAll_yields h hripe List.countP_le_length []).mono fun reaped b' hb' => ?_
  obtain ⟨hbusy, halone, hadopter⟩ := hb'
  have hconclude : Machine.conclude b'.kernel reaped = .ok reaped := by
    rw [Machine.conclude, hbusy.audit, hbusy.table.liveCount_eq_one halone]
    rfl
  rw [yields_bind, yields_get, hconclude]
  exact yields_pure.mpr ⟨hbusy, halone, hadopter⟩

end Play

namespace Exhaust

open Play

variable {config : Config} {k : Kernel} {b : Bench Unit} {pool pool' : PidPool} {m n : Nat}

/-- The identities of the children, in the order in which they were created. -/
def children (config : Config) (n : Nat) : List Pid :=
  (List.range n).map (PidPool.nth config.adopter)

theorem children_succ (config : Config) (n : Nat) :
    children config (n + 1) = children config n ++ [PidPool.nth config.adopter n] := by
  rw [children, List.range_succ, List.map_append]
  rfl

theorem nodup_children (config : Config) (n : Nat) : (children config n).Nodup :=
  (List.nodup_range).map fun _ _ => PidPool.nth_inj

/-- A table in which some children of the adopter run, in the slots after its own, with the identities
that are still to be handed out. -/
structure Filled (config : Config) (n : Nat) (pool : PidPool) (k : Kernel) : Prop where
  busy : k.Busy
  capacity : k.table.capacity = config.capacity
  adopter : k.table.adopter = config.adopter
  pool_eq : k.table.pool = pool
  tenancies : ∀ i, (k.table.slotAt (i + 1)).tenancy =
    if i < n then .live (PidPool.nth config.adopter i) config.adopter else .vacant

namespace Filled

theorem boot (hk : Kernel.boot config = .ok k) : Filled config 0 (.dealt config.adopter 0) k := by
  obtain ⟨ht, -⟩ := Kernel.boot_eq_ok hk
  obtain ⟨-, hcapacity, hadopter, hpool, -, hrest⟩ := Table.boot_eq_ok ht
  refine ⟨.boot hk, hcapacity, hadopter, hpool.trans (PidPool.dealt_zero _).symm, fun i => ?_⟩
  rw [hrest (i + 1) (Nat.succ_ne_zero i)]
  rfl

theorem slot_child (h : Filled config n pool k) {i : Nat} (hi : i < n) :
    (k.table.slotAt (i + 1)).tenancy = .live (PidPool.nth config.adopter i) config.adopter :=
  (h.tenancies i).trans (if_pos hi)

theorem slot_free (h : Filled config n pool k) {i : Nat} (hi : n ≤ i) :
    (k.table.slotAt (i + 1)).inUse = false :=
  ((h.busy.table.slots (i + 1)).vacant_iff).mp ((h.tenancies i).trans (if_neg hi.not_gt))

theorem child_holds (h : Filled config n pool k) {i : Nat} (hi : i < n) :
    (k.table.slotAt (i + 1)).holds (PidPool.nth config.adopter i) = true :=
  (h.busy.table.slots (i + 1)).holds_of_live (h.slot_child hi)

theorem child_runs (h : Filled config n pool k) {i : Nat} (hi : i < n) :
    (k.table.slotAt (i + 1)).status = .running :=
  (h.busy.works _ (Slot.holds_iff.mp (h.child_holds hi)).1
    ((h.busy.table.slots (i + 1)).not_zombie_of_live (h.slot_child hi))).1

theorem adopter_holds (h : Filled config n pool k) : (k.table.slotAt 0).holds config.adopter = true :=
  h.adopter ▸ h.busy.table.adopter_holds

theorem freeSlot? (h : Filled config n pool k) (hn : n + 1 < config.capacity) :
    k.table.freeSlot? = some (n + 1) := by
  refine Table.freeSlot?_eq_some.mpr ⟨h.capacity ▸ hn, h.slot_free (Nat.le_refl n), fun j hj => ?_⟩
  cases j with
  | zero => exact (Slot.holds_iff.mp h.adopter_holds).1
  | succ j => exact (Slot.holds_iff.mp (h.child_holds (Nat.lt_of_succ_lt_succ hj))).1

theorem full (h : Filled config n pool k) (hn : n + 1 = config.capacity) :
    k.table.freeSlot? = none := by
  refine Table.freeSlot?_eq_none.mpr fun i hi => ?_
  rw [h.capacity, ← hn] at hi
  cases i with
  | zero => exact (Slot.holds_iff.mp h.adopter_holds).1
  | succ i => exact (Slot.holds_iff.mp (h.child_holds (Nat.lt_of_succ_lt_succ hi))).1

/-- The children are just those who run besides the adopter. -/
theorem mem_children (h : Filled config n pool k) (p : Pid) :
    p ∈ children config n ↔ p ≠ config.adopter ∧ k.table.Runs p := by
  rw [children, List.mem_map]
  constructor
  · intro hp
    obtain ⟨i, hi, rfl⟩ := hp
    rw [List.mem_range] at hi
    exact ⟨PidPool.nth_ne _ _, i + 1, h.child_holds hi, h.child_runs hi⟩
  · intro hp
    obtain ⟨hne, j, hj, -⟩ := hp
    cases j with
    | zero => exact absurd (Slot.holds_inj hj h.adopter_holds) hne
    | succ i =>
      by_cases hi : i < n
      · exact ⟨i, List.mem_range.mpr hi, Slot.holds_inj (h.child_holds hi) hj⟩
      · have hused := (Slot.holds_iff.mp hj).1
        rw [h.slot_free (Nat.le_of_not_lt hi)] at hused
        cases hused

/-- If the pool hands out the next identity in order, the next child gets it, and the slot after the
last one that is in use. -/
theorem create (h : Filled config n pool k) (hn : n + 1 < config.capacity)
    (hissue : pool.issue = (PidPool.nth config.adopter n, pool')) :
    let made := k.create config.adopter defaultImage
    let started := made.kernel.transition (PidPool.nth config.adopter n) .running
    made.result = .ok (PidPool.nth config.adopter n) ∧ started.result = .ok () ∧
      made.kernel.table.Continues started.kernel.table ∧
      Filled config (n + 1) pool' started.kernel := by
  obtain ⟨hmade, hstarted, hbusy, hgoes, hpool, htenancy⟩ :=
    h.busy.create_free defaultImage h.adopter_holds h.busy.adopter_runs rfl
      (h.freeSlot? hn)
  rw [h.pool_eq, hissue] at hmade hstarted hbusy hgoes hpool htenancy
  have hmoves := Kernel.led_create (x := ⟨k, 0, []⟩) config.adopter defaultImage
  refine ⟨hmade, hstarted, hgoes, hbusy, ?_, ?_, hpool, fun i => ?_⟩
  · exact hgoes.capacity.trans (hmoves.capacity.trans h.capacity)
  · exact hgoes.adopter.trans (hmoves.adopter.trans h.adopter)
  · rw [htenancy, h.tenancies]
    rcases Nat.lt_trichotomy n i with hlt | rfl | hgt
    · rw [if_neg (by omega), if_neg hlt.not_gt, if_neg (by omega)]
    · rw [if_pos rfl, if_pos (Nat.lt_succ_self n)]
    · rw [if_neg (by omega), if_pos hgt, if_pos (Nat.lt_succ_of_lt hgt)]

/-- A full table refuses to create anybody and stays as it is. -/
theorem create_refused (h : Filled config n pool k) (hn : n + 1 = config.capacity) :
    (k.create config.adopter defaultImage).result = .error (.refused .tableFull) ∧
      (k.create config.adopter defaultImage).kernel = k :=
  h.busy.create_full h.adopter_holds h.busy.adopter_runs rfl (h.full hn)

end Filled

/-- A full table in which the last child has ended and the others run. -/
structure Retained (config : Config) (m : Nat) (pool : PidPool) (k : Kernel) : Prop where
  busy : k.Busy
  capacity : k.table.capacity = config.capacity
  adopter : k.table.adopter = config.adopter
  pool_eq : k.table.pool = pool
  full : k.table.freeSlot? = none
  tenancies : ∀ i, (k.table.slotAt (i + 1)).tenancy =
    if i < m then .live (PidPool.nth config.adopter i) config.adopter
    else if i = m then .dead (PidPool.nth config.adopter m) config.adopter 0 else .vacant

theorem Filled.retain (h : Filled config (m + 1) pool k) (hm : m + 2 = config.capacity) :
    (k.exit (PidPool.nth config.adopter m) 0).result = .ok () ∧
      Retained config m pool (k.exit (PidPool.nth config.adopter m) 0).kernel := by
  have hlast := Nat.lt_succ_self m
  have hne : PidPool.nth config.adopter m ≠ k.table.adopter :=
    h.adopter ▸ PidPool.nth_ne config.adopter m
  obtain ⟨hok, hbusy, htouches, hself⟩ :=
    h.busy.exit (h.child_holds hlast) (h.child_runs hlast) hne 0
  obtain ⟨hpool, htenancy⟩ := h.busy.tenancies_exit hok
  refine ⟨hok, hbusy, htouches.capacity.trans h.capacity, htouches.adopter.trans h.adopter,
    hpool.trans h.pool_eq, htouches.full ?_ (h.full hm), fun i => ?_⟩
  · rw [hself]
    rfl
  · rw [htenancy, h.tenancies, h.adopter]
    rcases Nat.lt_trichotomy i m with hlt | rfl | hgt
    · have hother : PidPool.nth config.adopter i ≠ PidPool.nth config.adopter m := fun heq =>
        hlt.ne (PidPool.nth_inj heq)
      rw [if_pos (Nat.lt_succ_of_lt hlt), if_pos hlt,
        Tenancy.live_ended_other hother (PidPool.nth_ne config.adopter m).symm]
    · rw [if_pos hlast, if_neg (Nat.lt_irrefl i), if_pos rfl, Tenancy.live_ended_self]
    · rw [if_neg (by omega), if_neg hgt.not_gt, if_neg hgt.ne', Tenancy.vacant_ended]

namespace Retained

/-- The zombie keeps its slot, so nothing can be allocated. -/
theorem allocate (h : Retained config m pool k) :
    k.allocate config.adopter = k.refuse .tableFull :=
  Kernel.allocate_full (h.adopter ▸ h.busy.table.aliveSlot_of_holds h.busy.table.adopter_holds
    h.busy.table.adopter.alive) h.full

/-- When the zombie has been collected, its slot is free and its identity is handed out next. -/
theorem free (h : Retained config m pool k) :
    let victim := PidPool.nth config.adopter m
    (k.wait config.adopter (.only victim)).result = .ok (.collected victim 0) ∧
      Filled config m { pool with returned := victim :: pool.returned }
        (k.wait config.adopter (.only victim)).kernel := by
  intro victim
  have hdead := h.tenancies m
  rw [if_neg (Nat.lt_irrefl m), if_pos rfl] at hdead
  have hslot := h.busy.table.slots (m + 1)
  have hfound : k.table.find config.adopter (.only victim) = .found (m + 1) victim 0 :=
    h.busy.table.find_only (hslot.remains_of_dead hdead (h.busy.quiet _) (decide_eq_true rfl))
  obtain ⟨hok, hbusy, htouches, -, -⟩ :=
    h.busy.collect (h.adopter ▸ h.busy.adopter_attends) hfound
  obtain ⟨hpool, i, hi, htenancy⟩ := h.busy.tenancies_collect hok
  obtain rfl : i = m + 1 := h.busy.table.holds_unique i (m + 1) victim
    ((h.busy.table.slots i).holds_of_dead hi) (hslot.holds_of_dead hdead)
  obtain ⟨hwait, hkernel⟩ := Kernel.wait_collected hok
  refine ⟨hwait, ?_⟩
  rw [hkernel]
  refine ⟨hbusy, htouches.capacity.trans h.capacity, htouches.adopter.trans h.adopter,
    hpool.trans (by rw [h.pool_eq]), fun i => ?_⟩
  rw [htenancy, h.tenancies]
  rcases Nat.lt_trichotomy i m with hlt | rfl | hgt
  · rw [if_neg (by omega), if_pos hlt, if_pos hlt]
  · rw [if_pos rfl, if_neg (Nat.lt_irrefl i)]
  · rw [if_neg (by omega), if_neg hgt.not_gt, if_neg hgt.ne', if_neg hgt.not_gt]

end Retained

theorem Filled.slotOf? (h : Filled config n pool k) {i : Nat} (hi : i < n) :
    k.table.slotOf? (PidPool.nth config.adopter i) = some (i + 1) :=
  h.busy.table.slotOf?_of_holds (h.child_holds hi)

/-- The last child ends, nothing can be allocated, it is collected, and the next child has its
identity and its slot. That leaves the table as it was. -/
theorem Filled.refill (h : Filled config (m + 1) (.dealt config.adopter (m + 1)) k)
    (hm : m + 2 = config.capacity) :
    let victim := PidPool.nth config.adopter m
    let ended := k.exit victim 0
    let freed := ended.kernel.wait config.adopter (.only victim)
    let made := freed.kernel.create config.adopter defaultImage
    let started := made.kernel.transition victim .running
    ended.result = .ok () ∧
      ended.kernel.allocate config.adopter = ended.kernel.refuse .tableFull ∧
      freed.result = .ok (.collected victim 0) ∧ made.result = .ok victim ∧
      made.kernel.table.slotOf? victim = some (m + 1) ∧ started.result = .ok () ∧
      Filled config (m + 1) (.dealt config.adopter (m + 1)) started.kernel := by
  intro victim ended freed made started
  obtain ⟨hended, hretained⟩ := h.retain hm
  obtain ⟨hfreed, hfree⟩ := hretained.free
  obtain ⟨hmade, hstarted, hgoes, hfilled⟩ :=
    hfree.create (by omega) (PidPool.issue_returned rfl)
  exact ⟨hended, hretained.allocate, hfreed, hmade,
    hgoes.slotOf?.symm.trans (hfilled.slotOf? (Nat.lt_succ_self m)), hstarted, hfilled⟩

/-- The loop creates a child for each free slot, and then stops. -/
theorem fill_yields (h : Filled config n (.dealt config.adopter n) b.kernel) {tries : Nat}
    (ht : n + tries = config.capacity) (hn : n < config.capacity) :
    Yields (fill config.adopter tries (children config n).reverse) b fun pids b' =>
      pids = (children config (config.capacity - 1)).reverse ∧
        Filled config (config.capacity - 1) (.dealt config.adopter (config.capacity - 1))
          b'.kernel := by
  induction tries generalizing n b with
  | zero => omega
  | succ tries ih =>
    rw [fill, yields_bind, yields_attempt]
    by_cases hfull : n + 1 = config.capacity
    · obtain ⟨hresult, hkernel⟩ := h.create_refused hfull
      obtain rfl : n = config.capacity - 1 := by omega
      rw [hresult]
      refine yields_pure.mpr ⟨rfl, ?_⟩
      rw [Bench.after, hkernel]
      exact h
    · obtain ⟨hmade, hstarted, -, hfilled⟩ := h.create (by omega) (PidPool.issue_dealt ..)
      rw [hmade]
      dsimp only
      rw [yields_bind, yields_need hstarted]
      have hnext := ih (b := (b.after (b.kernel.create config.adopter defaultImage)).after
        ((b.kernel.create config.adopter defaultImage).kernel.transition
          (PidPool.nth config.adopter n) .running)) hfilled (by omega) (by omega)
      rw [children_succ, List.reverse_append] at hnext
      exact hnext

/-- Everybody ends, the adopter collects them all, and the table is in order. -/
theorem finish_yields (h : Filled config n pool b.kernel) :
    Yields ((children config n).forM fun p => need (·.exit p 0)) b fun _ b₁ =>
      Yields settle b₁ fun _ b' => b'.kernel.Busy ∧ b'.kernel.table.Alone ∧
        b'.kernel.table.adopter = config.adopter := by
  refine (yields_endAll
    (fun b => b.kernel.Busy ∧ b.kernel.table.adopter = config.adopter) (fun _ => id)
    (fun b p hb hne hp => ?_) ⟨h.busy, h.adopter⟩ (nodup_children config n) h.mem_children).mono
      fun _ b' hb' => ?_
  · obtain ⟨hbusy, hadopter⟩ := hb
    obtain ⟨i, hp, hr⟩ := hp
    obtain ⟨hok, hbusy', htouches, hself⟩ := hbusy.exit hp hr (hadopter ▸ hne) 0
    refine (yields_need hok).mpr ⟨⟨hbusy', htouches.adopter.trans hadopter⟩, fun q => ?_⟩
    refine htouches.runs_iff hbusy.table hp ?_
    rw [hself]
    rfl
  · obtain ⟨⟨hbusy, hadopter⟩, hripe⟩ := hb'
    refine (settle_yields hbusy hripe).mono fun _ b'' hb'' => ?_
    exact ⟨hb''.1, hb''.2.1, hb''.2.2.trans hadopter⟩

/-- Where there is nobody but the adopter and no room for anybody else, the scenario fails. -/
theorem play_fails (h : Filled config 0 (.dealt config.adopter 0) b.kernel)
    (hc : config.capacity = 1) :
    Ends play b fun r _ => r = .error (.scenario .noRoom) := by
  rw [play]
  refine Yields.ends (yields_table.mpr (Yields.ends (yields_table.mpr ?_)))
  rw [h.adopter, h.capacity]
  refine Yields.ends ((fill_yields h (Nat.zero_add _) (by omega)).mono fun pids b' hb' => ?_)
  obtain ⟨rfl, -⟩ := hb'
  rw [hc]
  exact ends_throw.mpr rfl

/-- The scenario succeeds where there is room for another process. -/
theorem play_yields (h : Filled config 0 (.dealt config.adopter 0) b.kernel)
    (hc : m + 2 = config.capacity) :
    Yields play b fun r b' => r = ⟨m + 1, PidPool.nth config.adopter m⟩ ∧
      b'.kernel.Busy ∧ b'.kernel.table.Alone ∧ b'.kernel.table.adopter = config.adopter := by
  rw [play, yields_bind, yields_table, yields_bind, yields_table, h.adopter, h.capacity, yields_bind]
  refine (fill_yields h (Nat.zero_add _) (by omega)).mono fun pids b₁ hb₁ => ?_
  obtain ⟨rfl, hfilled⟩ := hb₁
  have hn : config.capacity - 1 = m + 1 := by omega
  rw [hn] at hfilled ⊢
  rw [children_succ, List.reverse_append]
  obtain ⟨hended, hallocate, hfreed, hmade, -, hstarted, hrefilled⟩ := hfilled.refill hc
  refine yields_bind.mpr ((yields_need hended).mpr ?_)
  refine yields_bind.mpr (yields_attempt.mpr ?_)
  have hrefused : (b₁.after (b₁.kernel.exit (PidPool.nth config.adopter m) 0)).kernel.allocate
    config.adopter = _ := hallocate
  rw [hrefused]
  refine yields_bind.mpr ((yields_collect hfreed).mpr ?_)
  refine yields_bind.mpr ((yields_need hmade).mpr ?_)
  refine yields_bind.mpr ((yields_need hstarted).mpr ?_)
  refine yields_bind.mpr (yields_tell.mpr ?_)
  have hchildren : (children config m).reverse.reverse ++ [PidPool.nth config.adopter m] =
      children config (m + 1) := by rw [List.reverse_reverse, children_succ]
  have hlength : (PidPool.nth config.adopter m :: (children config m).reverse).length = m + 1 := by
    simp [children]
  show Yields (((children config m).reverse.reverse ++ [PidPool.nth config.adopter m]).forM _ >>= _)
    _ _
  rw [hchildren]
  refine yields_bind.mpr ((finish_yields hrefilled).mono fun _ b₂ hb₂ => ?_)
  refine yields_bind.mpr (hb₂.mono fun _ b' hb' => ?_)
  refine yields_pure.mpr ⟨?_, hb'⟩
  exact congrArg (ExhaustReport.mk · _) hlength

end Exhaust

/-- On a table that has just been set up, whatever its size and its adopter, the scenario fails for
want of room if there is no slot but the adopter's. Otherwise it succeeds: it fills all other slots.
Between the end of the last child, which is in the last slot, and its collection nothing can be
allocated, and after that the next child gets the identity and the slot of the one collected. In the
end only the adopter is left. -/
theorem exhaust_of_boot {config : Config} (hc : 0 < config.capacity) (journal : Journal) :
    ∃ k, Kernel.boot config = .ok k ∧
      let yielded := exhaust k journal
      (config.capacity = 1 → yielded.report = .error (.scenario .noRoom)) ∧
      (2 ≤ config.capacity →
        let filled := config.capacity - 1
        ∃ victim others b,
          (Exhaust.fill config.adopter config.capacity []).run.run ⟨k, journal, ()⟩ =
            (.ok (victim :: others), b) ∧
          victim :: others = (Exhaust.children config filled).reverse ∧
          (let ended := b.kernel.exit victim 0
          let freed := ended.kernel.wait config.adopter (.only victim)
          let made := freed.kernel.create config.adopter defaultImage
          ended.result = .ok () ∧
            (ended.kernel.allocate config.adopter).result = .error (.refused .tableFull) ∧
            freed.result = .ok (.collected victim 0) ∧ made.result = .ok victim ∧
            b.kernel.table.slotOf? victim = some filled ∧
            made.kernel.table.slotOf? victim = some filled) ∧
          yielded.report = .ok ⟨filled, victim⟩ ∧
          ∀ i p, (yielded.kernel.table.slotAt i).holds p = true ↔ i = 0 ∧ p = config.adopter) := by
  obtain ⟨k, hk⟩ := Kernel.exists_boot hc
  have hboot := Exhaust.Filled.boot hk
  refine ⟨k, hk, fun hone => ?_, fun htwo => ?_⟩
  · obtain ⟨r, b', hr, hresult⟩ :=
      (Exhaust.play_fails (b := ⟨k, journal, ()⟩) hboot hone).report
    rw [exhaust, hresult, hr]
  · obtain ⟨m, hm⟩ := Nat.exists_eq_add_of_le' htwo
    have hfilled : config.capacity - 1 = m + 1 := by omega
    obtain ⟨pids, b, hrun, hpids, hb⟩ := Exhaust.fill_yields (b := ⟨k, journal, ()⟩) hboot
      (Nat.zero_add config.capacity) hc
    rw [hfilled] at hpids hb
    obtain ⟨hended, hallocate, hfreed, hmade, hslot, -⟩ := hb.refill hm.symm
    obtain ⟨r, b', ⟨hr, hbusy, halone, hadopter⟩, hresult⟩ :=
      (Exhaust.play_yields (b := ⟨k, journal, ()⟩) hboot hm.symm).report
    have hlast : (Exhaust.children config (m + 1)).reverse =
        PidPool.nth config.adopter m :: (Exhaust.children config m).reverse := by
      rw [Exhaust.children_succ, List.reverse_append]
      rfl
    rw [hfilled, exhaust, hresult]
    refine ⟨PidPool.nth config.adopter m, (Exhaust.children config m).reverse, b, ?_, hlast.symm,
      ⟨hended, congrArg Outcome.result hallocate, hfreed, hmade, hb.slotOf? (Nat.lt_succ_self m),
        hslot⟩, congrArg _ hr, fun i p => ?_⟩
    · rw [← hlast, ← hpids]
      exact hrun
    · rw [← hadopter]
      exact hbusy.table.holds_iff_of_alone halone

/-- The adopter's own number is passed over. In a table of one slot there is no room for anybody else.
-/
theorem exhaust_of_three :
    (∃ k, Kernel.boot ⟨1, ⟨1⟩⟩ = .ok k ∧
      (exhaust k #[]).report = .error (.scenario .noRoom)) ∧
    ∃ k, Kernel.boot ⟨3, ⟨1⟩⟩ = .ok k ∧ (exhaust k #[]).report = .ok ⟨2, ⟨2⟩⟩ ∧
      ∀ i p, ((exhaust k #[]).kernel.table.slotAt i).holds p = true ↔ i = 0 ∧ p = ⟨1⟩ := by
  have hone : 0 < (⟨1, ⟨1⟩⟩ : Config).capacity := by decide
  have hthree : 0 < (⟨3, ⟨1⟩⟩ : Config).capacity := by decide
  obtain ⟨k₁, hk₁, hfails, -⟩ := exhaust_of_boot hone #[]
  obtain ⟨k₃, hk₃, -, hyields⟩ := exhaust_of_boot hthree #[]
  obtain ⟨victim, others, b, -, hpids, -, hreport, halone⟩ := hyields (by decide)
  obtain rfl : victim = ⟨2⟩ := (List.cons.inj hpids).1
  exact ⟨⟨k₁, hk₁, hfails rfl⟩, k₃, hk₃, hreport, halone⟩

end Scenario

end Lifecycle
