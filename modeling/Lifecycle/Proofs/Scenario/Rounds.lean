import Lifecycle.Proofs.Kernel.Busy
import Lifecycle.Proofs.Scenario.Plays
import Lifecycle.Scenario.Stress
/-!
# Random operations never fail

Whatever the dice show, each round of random operations goes through: the processes that act are
those that run, they all have an address space, and one that has been killed only ends. What is
counted agrees with the table after every operation. So when the rounds are over every process can
end and be collected, and nothing is lost.
-/

namespace Lifecycle

namespace Table

variable {t t' : Table} {i : Nat} {p q : Pid}

/-- A process is running. -/
def Runs (t : Table) (p : Pid) : Prop :=
  ∃ i, (t.slotAt i).holds p = true ∧ (t.slotAt i).status = .running

theorem mem_running : p ∈ Scenario.Stress.running t ↔ t.Runs p := by
  rw [Scenario.Stress.running, List.mem_map]
  constructor
  · intro hx
    obtain ⟨profile, hm, rfl⟩ := hx
    obtain ⟨hprofile, hrunning⟩ := List.mem_filter.mp hm
    obtain ⟨s, hs, hsome⟩ := List.mem_filterMap.mp hprofile
    obtain ⟨i, -, rfl⟩ := exists_slotAt hs
    obtain ⟨q, hq, rfl⟩ := Option.map_eq_some_iff.mp hsome
    have hrun : (t.slotAt i).status = .running := by simpa using hrunning
    refine ⟨i, Slot.holds_iff.mpr ⟨?_, hq⟩, hrun⟩
    rw [Slot.inUse_iff, hrun]
    decide
  · intro hx
    obtain ⟨i, hp, hrun⟩ := hx
    have hmem := slotAt_mem (lt_capacity_of_holds hp)
    refine ⟨⟨p, .running, (t.slotAt i).parent, (t.slotAt i).exitCode, (t.slotAt i).killed⟩,
      List.mem_filter.mpr ⟨List.mem_filterMap.mpr ⟨_, hmem, ?_⟩, by simp⟩, rfl⟩
    rw [Slot.profile?, (Slot.holds_iff.mp hp).2, hrun]
    rfl

/-- Whatever is drawn, the process is one that runs. -/
theorem runs_getD {other : Pid} (h : t.Runs other) (draw : Nat) :
    t.Runs ((Scenario.Stress.running t).getD draw other) := by
  rw [List.getD_eq_getElem?_getD]
  cases hdrawn : (Scenario.Stress.running t)[draw]? with
  | none => exact h
  | some p => exact mem_running.mp (List.mem_of_getElem? hdrawn)

theorem Sound.killed_profile (h : t.Sound) (hp : (t.slotAt i).holds p = true) :
    ((t.profile? p).map (·.killed)).getD false = (t.slotAt i).killed := by
  rw [profile?, h.slotOf?_of_holds hp, Option.bind_some, Slot.profile?, (Slot.holds_iff.mp hp).2]
  rfl

/-- Every process that runs is listed once. -/
theorem Sound.nodup_running (h : t.Sound) : (Scenario.Stress.running t).Nodup := by
  have hpids : t.profiles.map (·.pid) = t.slots.filterMap (·.pid) := by
    rw [profiles, List.map_filterMap]
    refine List.filterMap_congr fun s _ => ?_
    rw [Slot.profile?, Option.map_map]
    exact Option.map_id'
  refine List.Nodup.sublist ?_ h.nodup_pids
  rw [← hpids]
  exact List.filter_sublist.map _

/-- When a process ends, the others that run go on. -/
theorem Touches.runs_iff (h : t.Touches i t') (hs : t.Sound) (hp : (t.slotAt i).holds p = true)
    (hz : (t'.slotAt i).isZombie = true) : t'.Runs q ↔ t.Runs q ∧ q ≠ p := by
  constructor
  · intro hruns
    obtain ⟨j, hq, hr⟩ := hruns
    have hij : i ≠ j := by
      rintro rfl
      rw [Slot.isZombie_iff.mp hz] at hr
      cases hr
    rw [h.rest j hij] at hq hr
    refine ⟨⟨j, hq, hr⟩, ?_⟩
    rintro rfl
    exact hij (hs.holds_unique i j q hp hq)
  · intro hruns
    obtain ⟨⟨j, hq, hr⟩, hne⟩ := hruns
    have hij : i ≠ j := by
      rintro rfl
      exact hne (Slot.holds_inj hq hp)
    refine ⟨j, ?_, ?_⟩ <;> rw [h.rest j hij]
    · exact hq
    · exact hr

end Table

namespace Scenario

namespace Stress

/-- The books of a run of random operations, in which some processes were there before and at most
some rounds have been played: the kernel is busy, and what has been counted agrees with its table. -/
structure Books (config : Config) (old rounds : Nat) (k : Kernel) (r : StressReport) : Prop where
  busy : k.Busy
  capacity : k.table.capacity = config.capacity
  adopter : k.table.adopter = config.adopter
  live : r.created + old + 1 = r.reaped + k.table.liveCount
  ended : r.exited = r.reaped + k.table.zombies
  killed : r.killed ≤ r.exited + k.table.marked
  rounds : r.created + r.exhausted ≤ rounds
  peak : r.maxLive ≤ config.capacity

namespace Books

variable {config : Config} {old n i : Nat} {k k' : Kernel} {r : StressReport}

theorem mono {n' : Nat} (h : Books config old n k r) (hn : n ≤ n') : Books config old n' k r :=
  { h with rounds := h.rounds.trans hn }

/-- The books after a step that touched one slot, brought up to date. -/
theorem update {n' : Nat} {r' : StressReport} (h : Books config old n k r) (hbusy : k'.Busy)
    (ht : k.table.Touches i k'.table)
    (hlive : r'.created + old + 1 = r'.reaped + k'.table.liveCount)
    (hended : r'.exited = r'.reaped + k'.table.zombies)
    (hkilled : r'.killed ≤ r'.exited + k'.table.marked)
    (hrounds : r'.created + r'.exhausted ≤ n') (hpeak : r'.maxLive = r.maxLive) :
    Books config old n' k' r' :=
  ⟨hbusy, ht.capacity.trans h.capacity, ht.adopter.trans h.adopter, hlive, hended, hkilled, hrounds,
    hpeak.trans_le h.peak⟩

/-- A process was created and made to run. -/
theorem born (h : Books config old n k r) (hbusy : k'.Busy) (ht : k.table.Touches i k'.table)
    (hfree : (k.table.slotAt i).inUse = false) (hruns : (k'.table.slotAt i).status = .running)
    (hk : (k'.table.slotAt i).killed = false) :
    Books config old (n + 1) k' { r with created := r.created + 1 } := by
  have hblank : k.table.slotAt i = .blank := (h.busy.table.slots i).blank hfree
  have hlive : k'.table.liveCount = k.table.liveCount + 1 := by
    simpa [hblank, Slot.inUse, hruns] using ht.liveCount
  have hzombies : k'.table.zombies = k.table.zombies := by
    simpa [hblank, Slot.isZombie, hruns] using ht.zombies
  have hmarked : k'.table.marked = k.table.marked := by
    simpa [hblank, Slot.isMarked, Slot.blank, hk] using ht.marked
  have hrounds := h.rounds
  refine h.update hbusy ht ?_ ?_ ?_ ?_ rfl <;> dsimp only
  · rw [hlive]
    have := h.live
    omega
  · rw [hzombies, h.ended]
  · rw [hmarked]
    exact h.killed
  · omega

/-- A process was refused for want of room. -/
theorem exhausted (h : Books config old n k r) :
    Books config old (n + 1) k { r with exhausted := r.exhausted + 1 } :=
  { h with rounds := Nat.succ_le_succ h.rounds }

/-- A running process has ended. -/
theorem fell (h : Books config old n k r) (hbusy : k'.Busy) (ht : k.table.Touches i k'.table)
    (hruns : (k.table.slotAt i).status = .running)
    (hself : (k'.table.slotAt i).isZombie = true) :
    Books config old n k' { r with exited := r.exited + 1 } := by
  have hstatus := Slot.isZombie_iff.mp hself
  have hlive : k'.table.liveCount = k.table.liveCount := by
    simpa [Slot.inUse, hruns, hstatus] using ht.liveCount
  have hzombies : k'.table.zombies = k.table.zombies + 1 := by
    simpa [Slot.isZombie, hruns, hstatus] using ht.zombies
  have hmarked : k.table.marked ≤ k'.table.marked + 1 := by
    have hcount := ht.marked
    have hone := Bool.toNat_le (k.table.slotAt i).isMarked
    omega
  refine h.update hbusy ht ?_ ?_ ?_ h.rounds rfl <;> dsimp only
  · rw [hlive]
    exact h.live
  · rw [hzombies, h.ended]
    omega
  · have := h.killed
    omega

/-- A running process that was not marked has been killed. -/
theorem slain (h : Books config old n k r) (hbusy : k'.Busy) (ht : k.table.Touches i k'.table)
    (hruns : (k.table.slotAt i).status = .running) (hk : (k.table.slotAt i).killed = false)
    (hself : k'.table.slotAt i = { k.table.slotAt i with killed := true }) :
    Books config old n k' { r with killed := r.killed + 1 } := by
  have hlive : k'.table.liveCount = k.table.liveCount := by
    simpa [Slot.inUse, hself] using ht.liveCount
  have hzombies : k'.table.zombies = k.table.zombies := by
    simpa [Slot.isZombie, hself] using ht.zombies
  have hmarked : k'.table.marked = k.table.marked + 1 := by
    simpa [Slot.isMarked, Slot.isZombie, hself, hruns, hk] using ht.marked
  refine h.update hbusy ht ?_ ?_ ?_ h.rounds rfl <;> dsimp only
  · rw [hlive]
    exact h.live
  · rw [hzombies, h.ended]
  · have := h.killed
    omega

/-- A zombie has been collected. -/
theorem collected (h : Books config old n k r) (hbusy : k'.Busy)
    (ht : k.table.Touches i k'.table) (hz : (k.table.slotAt i).isZombie = true)
    (hself : k'.table.slotAt i = .blank) :
    Books config old n k' { r with reaped := r.reaped + 1 } := by
  have hu := Slot.inUse_of_zombie hz
  have hlive : k'.table.liveCount + 1 = k.table.liveCount := by
    simpa [hself, hu] using ht.liveCount
  have hzombies : k'.table.zombies + 1 = k.table.zombies := by
    have hblank : Slot.blank.isZombie = false := rfl
    simpa [hself, hz, hblank] using ht.zombies
  have hmarked : k'.table.marked = k.table.marked := by
    simpa [Slot.isMarked, hself, hz, Slot.blank] using ht.marked
  refine h.update hbusy ht ?_ ?_ ?_ h.rounds rfl <;> dsimp only
  · have := h.live
    omega
  · have := h.ended
    omega
  · rw [hmarked]
    exact h.killed

/-- The number of processes has been noted. -/
theorem noted (h : Books config old n k r) :
    Books config old n k { r with maxLive := max r.maxLive k.table.liveCount } := by
  refine { h with peak := Nat.max_le.mpr ⟨h.peak, ?_⟩ }
  rw [← h.capacity]
  exact List.countP_le_length

end Books

open Play

variable {γ : Type} {config : Config} {old n i : Nat} {b : Bench (Own γ)} {p : Pid}

@[simp] theorem yields_count {f : StressReport → StressReport}
    {post : Unit → Bench (Own γ) → Prop} : Yields (count f) b post ↔
      post () { b with own := { b.own with tally := f b.own.tally } } := yields_modify

@[simp] theorem yields_throwDice {α : Type} {toss : γ → α × γ} {post : α → Bench (Own γ) → Prop} :
    Yields (throwDice toss) b post ↔
      post (toss b.own.dice).1 { b with own := { b.own with dice := (toss b.own.dice).2 } } :=
  yields_of_run rfl

/-- The books of a bench. -/
abbrev Kept (config : Config) (old n : Nat) (b : Bench (Own γ)) : Prop :=
  Books config old n b.kernel b.own.tally

/-- Throwing dice leaves the books alone. -/
theorem throwDice_yields (h : Kept config old n b) {α β : Type} {toss : γ → α × γ}
    {next : α → Play (Own γ) β} {post : β → Bench (Own γ) → Prop}
    (hnext : ∀ a b', Kept config old n b' → b'.kernel = b.kernel → Yields (next a) b' post) :
    Yields (throwDice toss >>= next) b post := by
  rw [yields_bind, yields_throwDice]
  exact hnext _ _ h rfl

theorem tell_yields (h : Kept config old n b) {β : Type} {event : Event} {next : Play (Own γ) β}
    {post : β → Bench (Own γ) → Prop}
    (hnext : ∀ b', Kept config old n b' → b'.kernel = b.kernel → Yields next b' post) :
    Yields (tell event >>= fun _ => next) b post := by
  rw [yields_bind, yields_tell]
  exact hnext _ h rfl

/-! ## The operations -/

/-- Whoever has been made is started and counted, and a lack of room is counted too. -/
theorem made_yields (h : Kept config old n b) {step : Kernel → Outcome Pid}
    (hm : b.kernel.Makes p (step b.kernel)) {next : Except Fault Pid → Play (Own γ) Unit}
    (hmade : ∀ q, next (.ok q) = do
      need (·.transition q .running)
      count fun t => { t with created := t.created + 1 })
    (hfull : next (.error (.refused .tableFull)) =
      count fun t => { t with exhausted := t.exhausted + 1 }) :
    Yields (attempt step >>= next) b fun _ b' => Kept config old (n + 1) b' := by
  rw [yields_bind, yields_attempt]
  cases hm with
  | made result led gains =>
    obtain ⟨hok, hbusy, i, ht, hfree, hruns, hk⟩ := h.busy.start led result gains
    rw [result, hmade, yields_bind, yields_need hok, yields_count]
    exact h.born hbusy ht hfree hruns hk
  | full result kernel =>
    have hexhausted := h.exhausted
    rw [← kernel] at hexhausted
    rw [result, hfull, yields_count]
    exact hexhausted

/-- A running process creates a child that runs, or there is no room. -/
theorem procreate_yields (h : Kept config old n b) (hp : (b.kernel.table.slotAt i).holds p = true)
    (hr : (b.kernel.table.slotAt i).status = .running) (dice : Dice γ) :
    Yields (procreate dice p) b fun _ b' => Kept config old (n + 1) b' := by
  have himage : (AddressSpace.ofRegions defaultImage).result = .ok () := rfl
  rw [procreate]
  refine throwDice_yields h fun coin b' h' hkernel => ?_
  rw [← hkernel] at hp hr
  split
  · refine made_yields h' (h'.busy.fork hp hr) (fun q => ?_) ?_ <;> rfl
  · refine made_yields h' (h'.busy.create hp hr himage) (fun q => ?_) ?_ <;> rfl

/-- A running process other than the adopter ends. -/
theorem finish_yields (h : Kept config old n b) (hp : (b.kernel.table.slotAt i).holds p = true)
    (hr : (b.kernel.table.slotAt i).status = .running) (hne : p ≠ b.kernel.table.adopter)
    (code : ExitCode) : Yields (finish p code) b fun _ b' => Kept config old n b' ∧
      ∀ q, b'.kernel.table.Runs q ↔ b.kernel.table.Runs q ∧ q ≠ p := by
  obtain ⟨hok, hbusy, ht, hself⟩ := h.busy.exit hp hr hne code
  rw [finish, yields_bind, yields_need hok, yields_count]
  have hzombie : ((b.kernel.exit p code).kernel.table.slotAt i).isZombie = true := by
    rw [hself]
    rfl
  exact ⟨h.fell hbusy ht hr hzombie, fun q => ht.runs_iff h.busy.table hp hzombie⟩

/-- A running process that has not been killed may look for a child to collect. -/
theorem collectAny_yields (h : Kept config old n b) (hp : (b.kernel.table.slotAt i).holds p = true)
    (hr : (b.kernel.table.slotAt i).status = .running)
    (hk : (b.kernel.table.slotAt i).killed = false) :
    Yields (collectAny p) b fun _ b' => Kept config old n b' := by
  have hattends : b.kernel.table.Attends p := ⟨i, hp, by rw [hr]; rfl, hk⟩
  rw [collectAny, yields_bind, yields_attempt]
  rcases h.busy.tryWait hattends .any with htry | htry | ⟨q, code, j, hok, hbusy, ht, hz, hself⟩
  · rw [htry]
    exact yields_pure.mpr h
  · rw [htry]
    exact yields_pure.mpr h
  · rw [hok]
    exact yields_count.mpr (h.collected hbusy ht hz hself)

/-- A running process other than the adopter is killed. -/
theorem kill_yields (h : Kept config old n b) (hp : (b.kernel.table.slotAt i).holds p = true)
    (hr : (b.kernel.table.slotAt i).status = .running)
    (hk : (b.kernel.table.slotAt i).killed = false) (hne : p ≠ b.kernel.table.adopter) :
    Yields (do need (·.kill p); count fun t => { t with killed := t.killed + 1 }) b
      fun _ b' => Kept config old n b' := by
  obtain ⟨hok, hbusy, ht, hself⟩ := h.busy.kill hp hr hne
  rw [yields_bind, yields_need hok, yields_count]
  exact h.slain hbusy ht hr hk hself

theorem operate_yields (h : Kept config old n b) (hp : (b.kernel.table.slotAt i).holds p = true)
    (hr : (b.kernel.table.slotAt i).status = .running)
    (hk : (b.kernel.table.slotAt i).killed = false) (dice : Dice γ) (op : Nat) :
    Yields (operate dice b.kernel.table.adopter p op) b fun _ b' => Kept config old (n + 1) b' := by
  have hlater : ∀ (_ : Unit) (b' : Bench (Own γ)), Kept config old n b' →
      Kept config old (n + 1) b' := fun _ b' hb' => hb'.mono (Nat.le_succ n)
  have hidle : Yields (pure () : Play (Own γ) Unit) b fun _ b' => Kept config old (n + 1) b' :=
    yields_pure.mpr (hlater () b h)
  rw [operate]
  split
  · exact procreate_yields h hp hr dice
  · split
    · split
      · rename_i hne
        refine throwDice_yields h fun code b₁ h₁ hkernel => ?_
        rw [← hkernel] at hp hr hne
        exact (finish_yields h₁ hp hr hne _).mono fun _ b' hb' => hlater () b' hb'.1
      · exact hidle
    · split
      · exact (collectAny_yields h hp hr hk).mono hlater
      · split
        · rename_i hne
          exact (kill_yields h hp hr hk hne).mono hlater
        · exact hidle

/-! ## Rounds -/

/-- The audit passes and the number of processes is noted. -/
theorem close_yields (h : Kept config old n b) :
    Yields (do
      verify
      let live := (← table).liveCount
      count fun t => { t with maxLive := max t.maxLive live }) b
      fun _ b' => Kept config old n b' := by
  rw [yields_bind, yields_verify h.busy.audit, yields_bind, yields_table]
  exact yields_count.mpr h.noted

/-- A round goes through, whatever is thrown. -/
theorem round_yields (h : Kept config old n b) (dice : Dice γ) (number : Nat) :
    Yields (round dice number) b fun _ b' => Kept config old (n + 1) b' := by
  have hadopter : b.kernel.table.Runs b.kernel.table.adopter :=
    ⟨0, h.busy.table.adopter_holds, h.busy.adopter_runs⟩
  have hsome : ¬(running b.kernel.table).isEmpty = true := by
    rw [List.isEmpty_iff]
    exact List.ne_nil_of_mem (Table.mem_running.mpr hadopter)
  rw [round, yields_bind, yields_table]
  dsimp only
  rw [if_neg hsome]
  refine throwDice_yields h fun draw b₁ h₁ hkernel₁ => throwDice_yields h₁ fun op b₂ h₂ hkernel₂ => ?_
  rw [← hkernel₁, ← hkernel₂] at hadopter ⊢
  generalize hactor : (running b₂.kernel.table).getD draw b₂.kernel.table.adopter = actor
  obtain ⟨i, hp, hr⟩ : b₂.kernel.table.Runs actor := by
    rw [← hactor]
    exact Table.runs_getD hadopter draw
  rw [h₂.busy.table.killed_profile hp]
  refine tell_yields h₂ fun b₃ h₃ hkernel₃ => ?_
  rw [← hkernel₃] at hp hr ⊢
  split <;> rw [yields_bind]
  · rename_i hk
    have hne : actor ≠ b₃.kernel.table.adopter := by
      rintro rfl
      obtain rfl := (h₃.busy.table.eq_zero_iff hp).mpr rfl
      rw [h₃.busy.table.adopter.unkilled] at hk
      cases hk
    exact (finish_yields h₃ hp hr hne (-1)).mono fun _ b' hb' =>
      close_yields (hb'.1.mono (Nat.le_succ n))
  · rename_i hk
    exact (operate_yields h₃ hp hr (Bool.eq_false_iff.mpr hk) dice op).mono fun _ b' hb' =>
      close_yields hb'

theorem rounds_yields (h : Kept config old n b) (dice : Dice γ) (number left : Nat) :
    Yields (rounds dice number left) b fun _ b' => Kept config old (n + left) b' := by
  induction left generalizing n number b with
  | zero => exact yields_pure.mpr h
  | succ left ih =>
    rw [rounds, yields_bind]
    refine (round_yields h dice number).mono fun _ b' hb' => ?_
    have hleft : n + (left + 1) = n + 1 + left := by omega
    rw [hleft]
    exact ih hb' (number + 1)

end Stress

end Scenario

end Lifecycle
