import Lifecycle.Proofs.Kernel.Turns
/-!
# Lives

Slots and identities are used again, so neither tells two processes apart. A slot together with the
act that put a process there does. The story of such a life is read off the answers to the calls and
off the table before and after each act. It has three chapters at most: the process is created; it
ends and becomes a zombie; and it is handed to a call made on behalf of its parent, with the code it
ended with, and leaves the table.
-/

namespace Lifecycle

/-- A process, told apart from all others by its slot and the number of the act that put it there.
The adopter has been there since before the first act. -/
structure Life where
  slot : Nat
  since : Nat
deriving DecidableEq

/-- A session with the number of acts so far, and for every slot the act that put a process there
last. It is also kept on behalf of which process each blocked caller called. -/
structure Chronicle where
  session : Session
  now : Nat
  since : Nat → Nat
  calls : Nat → Option Life

/-- What there is to say about a life: what acts told, and how its slot was seen to change. -/
inductive Remark where
  | told (deed : Deed)
  /-- The process was handed to a caller: the process on whose behalf that call was made, and the
  parent. -/
  | handed (caller parent : Option Life)
  | appeared
  | fell
  | revived
  | freed
deriving DecidableEq

namespace Chronicle

def start (k : Kernel) : Chronicle := ⟨.start k, 0, fun _ => 0, fun _ => none⟩

abbrev table (c : Chronicle) : Table := c.session.kernel.table

/-- The process that has an identity. -/
def life? (c : Chronicle) (p : Pid) : Option Life :=
  (c.table.slotOf? p).map fun i => ⟨i, c.since i⟩

def act (c : Chronicle) (a : Act) : Chronicle where
  session := c.session.act a
  now := c.now + 1
  since := fun i => if (c.table.slotAt i).inUse then c.since i else c.now + 1
  calls :=
    match a with
    | .wait parent _ => fun id => if id = c.session.nextId then c.life? parent else c.calls id
    | _ => c.calls

/-- The chronicle after some events, in order. -/
def follow (c : Chronicle) (acts : List Act) : Chronicle := acts.foldl act c

/-- The process on whose behalf an act calls, as it was when the call began. -/
def caller? (c : Chronicle) : Act → Option Life
  | .serve (.tryWait parent _) | .serve (.reap parent _) | .wait parent _ => c.life? parent
  | .rouse i => c.session.sleepers[i]?.bind fun sleeper => c.calls sleeper.id
  | .serve _ => none

/-- What an act tells of the process in a slot. -/
def told (c : Chronicle) (a : Act) (i : Nat) : List Remark :=
  match c.session.deed? a with
  | none => []
  | some (.born p) => if ((c.act a).table.slotAt i).holds p then [.told (.born p)] else []
  | some (.ended p code) => if (c.table.slotAt i).holds p then [.told (.ended p code)] else []
  | some (.collected q p code) =>
    if (c.table.slotAt i).holds p then
      [.told (.collected q p code), .handed (c.caller? a) ((c.table.slotAt i).parent.bind c.life?)]
    else []

/-- What is seen to happen to a slot. -/
def seen (s s' : Slot) : List Remark :=
  (if !s.inUse && s'.inUse then [.appeared] else []) ++
    (if !s.isZombie && s'.isZombie then [.fell] else []) ++
    (if s.isZombie && s'.inUse && !s'.isZombie then [.revived] else []) ++
    (if s.inUse && !s'.inUse then [.freed] else [])

/-- What an act adds to the story of a life. -/
def chapter (c : Chronicle) (a : Act) (l : Life) : List Remark :=
  if (c.act a).since l.slot = l.since then
    c.told a l.slot ++ seen (c.table.slotAt l.slot) ((c.act a).table.slotAt l.slot)
  else []

/-- The story of a life, with the acts left out that add nothing to it. -/
def story (c : Chronicle) (l : Life) : List Act → List (List Remark)
  | [] => []
  | a :: rest =>
    if c.chapter a l = [] then (c.act a).story l rest
    else c.chapter a l :: (c.act a).story l rest

/-- All that some events did, in order. -/
def deeds (c : Chronicle) : List Act → List Deed
  | [] => []
  | a :: rest => (c.session.deed? a).toList ++ (c.act a).deeds rest

variable {c : Chronicle}

/-! ## Blocked callers -/

/-- Whoever is blocked by a wait gets the next number, and the slot of its process. -/
theorem blocked_wait {s : Session} {parent : Pid} {target : Target} {w : Waiter}
    (h : (s.kernel.wait parent target).result = .ok (.asleep w)) :
    (s.wait parent target).2.1 = .blocked s.nextId ∧ w.caller.parent = parent ∧
      w.caller.target = target ∧ s.kernel.table.slotOf? parent = some w.caller.slot := by
  refine ⟨by simp only [Session.wait, h], ?_⟩
  rw [Kernel.wait] at h
  split at h
  · simp [Kernel.refuse, Kernel.fail] at h
  · rename_i i hi
    obtain ⟨-, rfl⟩ := Kernel.look_asleep h
    exact ⟨rfl, rfl, (Table.aliveSlot_eq_ok hi).1⟩

/-- Whoever is asleep after an act was so before, on the same terms, or has just called. -/
theorem sleeper_act {s : Session} {a : Act} {sleeper : Sleeper}
    (h : sleeper ∈ (s.act a).sleepers) :
    (∃ old ∈ s.sleepers, old.id = sleeper.id ∧ old.waiter.caller = sleeper.waiter.caller) ∨
      a = .wait sleeper.waiter.caller.parent sleeper.waiter.caller.target ∧
        sleeper.id = s.nextId ∧
        (s.wait sleeper.waiter.caller.parent sleeper.waiter.caller.target).2.1 =
          .blocked sleeper.id ∧
        s.kernel.table.slotOf? sleeper.waiter.caller.parent = some sleeper.waiter.caller.slot := by
  cases a with
  | serve r => exact .inl ⟨sleeper, h, rfl, rfl⟩
  | wait parent target =>
    simp only [Session.act, Session.wait] at h
    split at h
    · exact .inl ⟨sleeper, h, rfl, rfl⟩
    · exact .inl ⟨sleeper, h, rfl, rfl⟩
    · rename_i w hr
      rcases List.mem_append.mp h with h | h
      · exact .inl ⟨sleeper, h, rfl, rfl⟩
      · obtain rfl := List.mem_singleton.mp h
        obtain ⟨hblocked, rfl, rfl, hslot⟩ := blocked_wait hr
        exact .inr ⟨rfl, rfl, hblocked, hslot⟩
  | rouse i =>
    simp only [Session.act, Session.rouse] at h
    split at h
    · exact .inl ⟨sleeper, h, rfl, rfl⟩
    · rename_i old hold
      split at h
      · exact .inl ⟨sleeper, List.mem_of_mem_eraseIdx h, rfl, rfl⟩
      · exact .inl ⟨sleeper, List.mem_of_mem_eraseIdx h, rfl, rfl⟩
      · rename_i w hr
        rcases List.mem_or_eq_of_mem_set h with h | rfl
        · exact .inl ⟨sleeper, h, rfl, rfl⟩
        · obtain ⟨-, rfl⟩ := Kernel.resume_asleep hr
          exact .inl ⟨old, List.mem_of_getElem? hold, rfl, rfl⟩

theorem nextId_le (s : Session) (a : Act) : s.nextId ≤ (s.act a).nextId := by
  cases a with
  | serve r => exact Nat.le_refl _
  | wait parent target =>
    simp only [Session.act, Session.wait]
    split <;> simp
  | rouse i =>
    simp only [Session.act, Session.rouse]
    split
    · exact Nat.le_refl _
    · split <;> simp

/-- The records of a chronicle are right. -/
structure Sound (c : Chronicle) : Prop where
  scene : c.session.scene.Sound
  since_le : ∀ i, c.since i ≤ c.now
  id_lt : ∀ sleeper ∈ c.session.sleepers, sleeper.id < c.session.nextId
  calls : ∀ sleeper ∈ c.session.sleepers, c.calls sleeper.id =
    some ⟨sleeper.waiter.caller.slot, c.since sleeper.waiter.caller.slot⟩

namespace Sound

theorem table (h : c.Sound) : c.table.Sound := h.scene.table

theorem pinned (h : c.Sound) {sleeper : Sleeper} (hm : sleeper ∈ c.session.sleepers) :
    (c.table.slotAt sleeper.waiter.caller.slot).holds sleeper.waiter.caller.parent = true :=
  (h.scene.pinned _ (Session.mem_blocked.mpr ⟨sleeper, hm, rfl⟩)).1

theorem act (h : c.Sound) (a : Act) : (c.act a).Sound where
  scene := h.scene.moves (Session.moves_act h.scene a)
  since_le := fun i => by
    have hi := h.since_le i
    simp only [Chronicle.act]
    split <;> omega
  id_lt := fun sleeper hm => by
    have hle := nextId_le c.session a
    rcases sleeper_act hm with ⟨old, hold, hid, -⟩ | ⟨rfl, hid, -, -⟩
    · rw [← hid]
      exact (h.id_lt old hold).trans_le hle
    · rw [hid]
      simp only [Chronicle.act, Session.act, Session.wait]
      split <;> simp
  calls := fun sleeper hm => by
    rcases sleeper_act hm with ⟨old, hold, hid, hcaller⟩ | ⟨rfl, hid, -, hslot⟩
    · have hu := (Slot.holds_iff.mp (h.pinned hold)).1
      rw [hcaller] at hu
      have hcalls := h.calls old hold
      have hlt := h.id_lt old hold
      rw [hid] at hlt
      rw [hid, hcaller] at hcalls
      simp only [Chronicle.act, hu, if_true]
      split
      · rw [if_neg (by omega), hcalls]
      · exact hcalls
    · have hu := (Slot.holds_iff.mp (Table.holds_of_slotOf? hslot)).1
      simp only [Chronicle.act, hid, if_true, life?, hslot, hu, Option.map_some]

/-- Whoever collects a process called on behalf of the identity that is told. -/
theorem caller?_of_collected (h : c.Sound) {a : Act} {q p : Pid} {code : ExitCode}
    (hd : c.session.deed? a = some (.collected q p code)) : c.caller? a = c.life? q := by
  cases a with
  | serve r =>
    simp only [Session.deed?] at hd
    split at hd
    · unfold Request.deed? at hd
      split at hd <;> simp at hd
      · obtain ⟨rfl, -⟩ := hd
        rfl
      · obtain ⟨rfl, -⟩ := hd
        rfl
    · simp at hd
  | wait parent target =>
    simp only [Session.deed?] at hd
    split at hd
    · simp only [Option.some.injEq, Deed.collected.injEq] at hd
      obtain ⟨rfl, -⟩ := hd
      rfl
    · simp at hd
  | rouse i =>
    simp only [Session.deed?] at hd
    split at hd
    · rename_i sleeper _ _ _ hi _
      simp only [Option.some.injEq, Deed.collected.injEq] at hd
      obtain ⟨rfl, -⟩ := hd
      have hm := List.mem_of_getElem? hi
      simp only [caller?, hi, Option.bind_some, h.calls sleeper hm, life?,
        h.table.slotOf?_of_holds (h.pinned hm), Option.map_some]
    · simp at hd

end Sound

/-! ## What an act does to a slot -/

/-- What an act tells of a slot, and how the slot changes. -/
inductive Change (s s' : Slot) : List Remark → Prop
  | stays (h : s.Stays s') : Change s s' []
  | born {p : Pid} (free : s.inUse = false) (holds : s'.holds p = true)
      (lives : s'.isZombie = false) : Change s s' [.told (.born p)]
  | ended {p : Pid} {code : ExitCode} (before : s.holds p = true) (lived : s.isZombie = false)
      (holds : s'.holds p = true) (zombie : s'.isZombie = true)
      (code_eq : s'.exitCode = some code) : Change s s' [.told (.ended p code)]
  | collected {q p : Pid} {code : ExitCode} {m : Life} (before : s.holds p = true)
      (zombie : s.isZombie = true) (code_eq : s.exitCode = some code) (gone : s'.inUse = false) :
      Change s s' [.told (.collected q p code), .handed (some m) (some m)]

/-- Acts tell of a slot exactly what happens to it. -/
theorem Sound.change (h : c.Sound) (a : Act) (i : Nat) :
    Change (c.table.slotAt i) ((c.act a).table.slotAt i) (c.told a i) := by
  have hturn : c.table.Turn (c.session.deed? a) (c.act a).table := Session.turn_act h.scene a
  -- An identity that is told belongs to the slot of the deed and to no other one.
  have hother : ∀ {t : Table} {j m : Nat} {p : Pid}, t.Sound → (t.slotAt j).holds p = true →
      j ≠ m → ¬(t.slotAt m).holds p = true :=
    fun ht hj hne hm => hne (ht.holds_unique _ _ _ hj hm)
  rw [told]
  cases hd : c.session.deed? a with
  | none =>
    rw [hd] at hturn
    exact .stays (hturn i)
  | some d =>
    rw [hd] at hturn
    cases d with
    | born p =>
      obtain ⟨j, hfree, hp, hz, hrest⟩ := hturn
      dsimp only
      by_cases hj : j = i
      · subst hj
        rw [if_pos hp]
        exact .born hfree hp hz
      · rw [if_neg (hother (h.act a).table hp hj)]
        exact .stays (hrest i hj)
    | ended p code =>
      obtain ⟨j, hp, hz, hp', hz', hcode, hrest⟩ := hturn
      dsimp only
      by_cases hj : j = i
      · subst hj
        rw [if_pos hp]
        exact .ended hp hz hp' hz' hcode
      · rw [if_neg (hother h.table hp hj)]
        exact .stays (hrest i hj)
    | collected q p code =>
      obtain ⟨j, hp, hz, hcode, hparent, hgone, hrest⟩ := hturn
      dsimp only
      by_cases hj : j = i
      · subst hj
        obtain ⟨m, hm, -⟩ := h.table.parent_holds (Slot.holds_iff.mp hp).1 hparent
        have hlife : c.life? q = some ⟨m, c.since m⟩ := by
          rw [life?, h.table.slotOf?_of_holds hm]
          rfl
        rw [if_pos hp, h.caller?_of_collected hd, hparent, Option.bind_some, hlife]
        exact .collected hp hz hcode hgone
      · rw [if_neg (hother h.table hp hj)]
        exact .stays (hrest i hj)

theorem seen_of_stays {s s' : Slot} (h : s.Stays s') : seen s s' = [] := by
  simp only [seen, h.inUse, h.isZombie]
  cases s.inUse <;> cases s.isZombie <;> rfl

private theorem not_zombie_of_free {s : Slot} (h : s.inUse = false) : s.isZombie = false := by
  by_contra hz
  rw [Slot.inUse_of_zombie (by simpa using hz)] at h
  simp at h

/-! ## The stages of a life -/

/-- The process of a life is in the table. -/
def Has (c : Chronicle) (l : Life) : Prop :=
  (c.table.slotAt l.slot).inUse = true ∧ c.since l.slot = l.since

theorem since_act_of_inUse {a : Act} {i : Nat} (h : (c.table.slotAt i).inUse = true) :
    (c.act a).since i = c.since i := if_pos h

theorem since_act_of_free {a : Act} {i : Nat} (h : (c.table.slotAt i).inUse = false) :
    (c.act a).since i = c.now + 1 := if_neg (by simp [h])

/-- An act adds nothing to the story of a life whose process is not in the slot after it. -/
theorem story_cons_of_ne {a : Act} {l : Life} {rest : List Act}
    (h : (c.act a).since l.slot ≠ l.since) : c.story l (a :: rest) = (c.act a).story l rest := by
  have hchapter : c.chapter a l = [] := if_neg h
  rw [story, if_pos hchapter]

/-- Whoever has left the table never returns. -/
theorem story_of_gone (hs : c.Sound) {l : Life} (hl : l.since ≤ c.now) (hgone : ¬c.Has l)
    (acts : List Act) : c.story l acts = [] := by
  induction acts generalizing c with
  | nil => rfl
  | cons a rest ih =>
    have hne : (c.act a).since l.slot ≠ l.since := by
      by_cases hu : (c.table.slotAt l.slot).inUse = true
      · rw [since_act_of_inUse hu]
        exact fun he => hgone ⟨hu, he⟩
      · rw [since_act_of_free (by simpa using hu)]
        omega
    rw [story_cons_of_ne hne]
    exact ih (hs.act a) (Nat.le_succ_of_le hl) fun hhas => hne hhas.2

/-- A zombie is handed to a call made on behalf of its parent, with its code. -/
theorem story_of_zombie (hs : c.Sound) {l : Life} (hl : c.Has l) {p : Pid} {code : ExitCode}
    (hp : (c.table.slotAt l.slot).holds p = true) (hz : (c.table.slotAt l.slot).isZombie = true)
    (hcode : (c.table.slotAt l.slot).exitCode = some code) (acts : List Act) :
    ∃ q m, c.story l acts <+:
      [[.told (.collected q p code), .handed (some m) (some m), .freed]] := by
  induction acts generalizing c with
  | nil => exact ⟨default, l, List.nil_prefix⟩
  | cons a rest ih =>
    have hsince := (since_act_of_inUse (a := a) hl.1).trans hl.2
    have hle : l.since ≤ (c.act a).now := hl.2 ▸ Nat.le_succ_of_le (hs.since_le l.slot)
    have hchange := hs.change a l.slot
    rw [story, chapter, if_pos hsince]
    generalize c.told a l.slot = told at hchange
    cases hchange with
    | stays h =>
      rw [List.nil_append, seen_of_stays h, if_pos rfl]
      exact ih (hs.act a) ⟨h.inUse.trans hl.1, hsince⟩ ((h.holds p).trans hp)
        (h.isZombie.trans hz) (h.exitCode.trans hcode)
    | born free holds lives => simp [hl.1] at free
    | ended before lived holds zombie code_eq => simp [hz] at lived
    | @collected q _ _ m before zombie code_eq gone =>
      obtain rfl := Slot.holds_inj hp before
      rw [hcode] at code_eq
      obtain rfl := Option.some.inj code_eq
      have hgone : ¬(c.act a).Has l := fun h => absurd h.1 (by simp [gone])
      have hseen : seen (c.table.slotAt l.slot) ((c.act a).table.slotAt l.slot) = [.freed] := by
        simp [seen, hl.1, hz, gone, not_zombie_of_free gone]
      rw [hseen, story_of_gone (hs.act a) hle hgone, if_neg (by simp)]
      exact ⟨q, m, List.prefix_refl _⟩

/-- A process that has not ended ends as a zombie, by a call of its own. -/
theorem story_of_living (hs : c.Sound) {l : Life} (hl : c.Has l) {p : Pid}
    (hp : (c.table.slotAt l.slot).holds p = true) (hz : (c.table.slotAt l.slot).isZombie = false)
    (acts : List Act) :
    ∃ q code m, c.story l acts <+: [[.told (.ended p code), .fell],
      [.told (.collected q p code), .handed (some m) (some m), .freed]] := by
  induction acts generalizing c with
  | nil => exact ⟨default, default, l, List.nil_prefix⟩
  | cons a rest ih =>
    have hsince := (since_act_of_inUse (a := a) hl.1).trans hl.2
    have hchange := hs.change a l.slot
    rw [story, chapter, if_pos hsince]
    generalize c.told a l.slot = told at hchange
    cases hchange with
    | stays h =>
      rw [List.nil_append, seen_of_stays h, if_pos rfl]
      exact ih (hs.act a) ⟨h.inUse.trans hl.1, hsince⟩ ((h.holds p).trans hp) (h.isZombie.trans hz)
    | born free holds lives => simp [hl.1] at free
    | @ended _ code before lived holds zombie code_eq =>
      obtain rfl := Slot.holds_inj hp before
      have hu := (Slot.holds_iff.mp holds).1
      obtain ⟨q, m, hrest⟩ :=
        story_of_zombie (hs.act a) ⟨hu, hsince⟩ holds zombie code_eq rest
      have hseen : seen (c.table.slotAt l.slot) ((c.act a).table.slotAt l.slot) = [.fell] := by
        simp [seen, hl.1, hz, hu, zombie]
      rw [hseen, if_neg (by simp)]
      exact ⟨q, code, m, List.prefix_cons_inj _ |>.mpr hrest⟩
    | collected before zombie code_eq gone => simp [hz] at zombie

/-- The adopter neither ends nor leaves the table. -/
theorem story_of_adopter (hs : c.Sound) {l : Life} (hl : c.Has l) (h0 : l.slot = 0)
    (acts : List Act) : c.story l acts = [] := by
  induction acts generalizing c with
  | nil => rfl
  | cons a rest ih =>
    have hsince := (since_act_of_inUse (a := a) hl.1).trans hl.2
    have hz := Slot.not_zombie_of_alive hs.table.adopter.alive
    have hz' := Slot.not_zombie_of_alive (hs.act a).table.adopter.alive
    rw [← h0] at hz hz'
    have hchange := hs.change a l.slot
    rw [story, chapter, if_pos hsince]
    generalize c.told a l.slot = told at hchange
    cases hchange with
    | stays h =>
      rw [List.nil_append, seen_of_stays h, if_pos rfl]
      exact ih (hs.act a) ⟨h.inUse.trans hl.1, hsince⟩
    | born free holds lives => simp [hl.1] at free
    | ended before lived holds zombie code_eq => simp [hz'] at zombie
    | collected before zombie code_eq gone => simp [hz] at zombie

/-- A process that is still to come is created first of all. -/
theorem story_of_unborn (hs : c.Sound) {l : Life} (hl : c.now < l.since) (acts : List Act) :
    ∃ q p code m, c.story l acts <+: [[.told (.born p), .appeared], [.told (.ended p code), .fell],
      [.told (.collected q p code), .handed (some m) (some m), .freed]] := by
  induction acts generalizing c with
  | nil => exact ⟨default, default, default, l, List.nil_prefix⟩
  | cons a rest ih =>
    by_cases heq : (c.act a).since l.slot = l.since
    · have hfree : (c.table.slotAt l.slot).inUse = false := by
        by_contra hu
        rw [since_act_of_inUse (by simpa using hu)] at heq
        have hle := hs.since_le l.slot
        omega
      have hle : l.since ≤ (c.act a).now := heq ▸ (hs.act a).since_le l.slot
      have hchange := hs.change a l.slot
      rw [story, chapter, if_pos heq]
      generalize c.told a l.slot = told at hchange
      cases hchange with
      | stays h =>
        have hgone : ¬(c.act a).Has l := fun hhas => absurd hhas.1 (by simp [h.inUse, hfree])
        rw [List.nil_append, seen_of_stays h, if_pos rfl, story_of_gone (hs.act a) hle hgone]
        exact ⟨default, default, default, l, List.nil_prefix⟩
      | @born p free holds lives =>
        have hu := (Slot.holds_iff.mp holds).1
        obtain ⟨q, code, m, hrest⟩ := story_of_living (hs.act a) ⟨hu, heq⟩ holds lives rest
        have hseen : seen (c.table.slotAt l.slot) ((c.act a).table.slotAt l.slot) =
            [.appeared] := by
          simp [seen, hfree, hu, lives, not_zombie_of_free hfree]
        rw [hseen, if_neg (by simp)]
        exact ⟨q, p, code, m, List.prefix_cons_inj _ |>.mpr hrest⟩
      | ended before lived holds zombie code_eq => simp [(Slot.holds_iff.mp before).1] at hfree
      | collected before zombie code_eq gone => simp [(Slot.holds_iff.mp before).1] at hfree
    · -- The slot is taken by somebody else, or the time has not come.
      rw [story_cons_of_ne heq]
      by_cases hlater : (c.act a).now < l.since
      · exact ih (hs.act a) hlater
      · rw [story_of_gone (hs.act a) (Nat.le_of_not_lt hlater) fun hhas => heq hhas.2]
        exact ⟨default, default, default, l, List.nil_prefix⟩

/-! ## Every deed belongs to a life -/

/-- What an act tells, it tells of a process that it finds in the table or puts there. -/
theorem exists_told (hs : c.Sound) {a : Act} {d : Deed} (hd : c.session.deed? a = some d) :
    ∃ l, .told d ∈ c.chapter a l := by
  have hturn : c.table.Turn (c.session.deed? a) (c.act a).table := Session.turn_act hs.scene a
  rw [hd] at hturn
  have htold : ∃ i, .told d ∈ c.told a i := by
    simp only [told, hd]
    cases d with
    | born p =>
      obtain ⟨i, -, hp, -⟩ := hturn
      exact ⟨i, by simp [hp]⟩
    | ended p code =>
      obtain ⟨i, hp, -⟩ := hturn
      exact ⟨i, by simp [hp]⟩
    | collected q p code =>
      obtain ⟨i, hp, -⟩ := hturn
      exact ⟨i, by simp [hp]⟩
  obtain ⟨i, hi⟩ := htold
  refine ⟨⟨i, (c.act a).since i⟩, ?_⟩
  rw [chapter, if_pos rfl]
  exact List.mem_append_left _ hi

/-! ## Counting processes -/

/-- Processes in the table and collected ones make up the created ones. -/
theorem liveCount_act (hs : c.Sound) (a : Act) :
    c.table.liveCount + (c.session.deed? a).toList.countP Deed.isBirth =
      (c.act a).table.liveCount + (c.session.deed? a).toList.countP Deed.isCollection := by
  have hcap : (c.act a).table.capacity = c.table.capacity :=
    (Session.moves_act hs.scene a).keep (P := fun x => x.table.capacity = c.table.capacity)
      (fun hx hm => hm.fixed.1.trans hx) rfl
  exact (Session.turn_act hs.scene a).liveCount hcap

theorem liveCount_follow (hs : c.Sound) (acts : List Act) :
    c.table.liveCount + (c.deeds acts).countP Deed.isBirth =
      (c.follow acts).table.liveCount + (c.deeds acts).countP Deed.isCollection := by
  induction acts generalizing c with
  | nil => rfl
  | cons a rest ih =>
    have hfirst := liveCount_act hs a
    have hrest := ih (hs.act a)
    simp only [deeds, List.countP_append]
    show _ = ((c.act a).follow rest).table.liveCount + _
    omega

/-! ## Whole runs -/

/-- What every event keeps is kept by events one after the other. -/
theorem keep_follow {P : Chronicle → Prop} (hP : ∀ {c}, P c → ∀ a, P (c.act a)) (h : P c)
    (acts : List Act) : P (c.follow acts) := by
  induction acts generalizing c with
  | nil => exact h
  | cons a rest ih => exact ih (hP h a)

theorem Sound.follow (hs : c.Sound) (acts : List Act) : (c.follow acts).Sound :=
  keep_follow (fun hc => hc.act) hs acts

variable {config : Config} {k : Kernel}

theorem Sound.start (hk : Kernel.boot config = .ok k) : (start k).Sound where
  scene := (Session.Reachable.boot hk).sound
  since_le := fun _ => Nat.le_refl _
  id_lt := fun sleeper hm => by simp [Chronicle.start, Session.start] at hm
  calls := fun sleeper hm => by simp [Chronicle.start, Session.start] at hm

/-- Whatever events follow the setting up of a table, the story of each life is a beginning of: it
is created; it ends with a code and is a zombie from then on; it is handed with this code to a call
that was made on behalf of its parent, and its slot is freed. Every process that is told of has such
a story, and what has been created and not collected is in the table. -/
theorem lives_of_run (hk : Kernel.boot config = .ok k) (acts : List Act) :
    (∀ l, ∃ q p code m, (start k).story l acts <+:
      [[.told (.born p), .appeared], [.told (.ended p code), .fell],
        [.told (.collected q p code), .handed (some m) (some m), .freed]]) ∧
      (∀ a d, ((start k).follow acts).session.deed? a = some d →
        ∃ l, .told d ∈ ((start k).follow acts).chapter a l) ∧
      (((start k).deeds acts).countP Deed.isBirth : Int) -
          ((start k).deeds acts).countP Deed.isCollection =
        ((start k).follow acts).table.liveCount - 1 := by
  have hs := Sound.start hk
  refine ⟨fun l => ?_, fun a d hd => exists_told (hs.follow acts) hd, ?_⟩
  · by_cases hborn : 0 < l.since
    · exact story_of_unborn hs hborn acts
    · refine ⟨default, default, default, l, ?_⟩
      by_cases h0 : l.slot = 0
      · have hhas : (Chronicle.start k).Has l := by
          refine ⟨?_, by simp only [Chronicle.start]; omega⟩
          rw [h0]
          exact Slot.inUse_of_alive hs.table.adopter.alive
        rw [story_of_adopter hs hhas h0 acts]
        exact List.nil_prefix
      · have hgone : ¬(Chronicle.start k).Has l := by
          intro hhas
          obtain ⟨-, -, -, -, -, hrest⟩ := Table.boot_eq_ok (Kernel.boot_eq_ok hk).1
          have hu := hhas.1
          change (k.table.slotAt l.slot).inUse = true at hu
          rw [hrest l.slot h0] at hu
          simp at hu
        rw [story_of_gone hs (by simp only [Chronicle.start]; omega) hgone acts]
        exact List.nil_prefix
  · have hcount := liveCount_follow hs acts
    have hone : (Chronicle.start k).table.liveCount = 1 :=
      Table.liveCount_boot (Kernel.boot_eq_ok hk).1
    omega

/-- A child is collected by a blocked call, and another one is given its slot and its identity. -/
def reuse : List Act :=
  [.serve (.create ⟨7⟩ []), .serve (.transition ⟨0⟩ .running), .wait ⟨7⟩ .any,
    .serve (.exit ⟨0⟩ 3), .rouse 0, .serve (.create ⟨7⟩ []), .serve (.transition ⟨0⟩ .running),
    .serve (.exit ⟨0⟩ 5)]

theorem lives_of_reuse :
    ∃ k, Kernel.boot ⟨2, ⟨7⟩⟩ = .ok k ∧
      (start k).story ⟨1, 1⟩ reuse = [[.told (.born ⟨0⟩), .appeared],
        [.told (.ended ⟨0⟩ 3), .fell],
        [.told (.collected ⟨7⟩ ⟨0⟩ 3), .handed (some ⟨0, 0⟩) (some ⟨0, 0⟩), .freed]] ∧
      (start k).story ⟨1, 6⟩ reuse =
        [[.told (.born ⟨0⟩), .appeared], [.told (.ended ⟨0⟩ 5), .fell]] ∧
      ∃ q p code m, (start k).story ⟨1, 6⟩ reuse <+:
        [[.told (.born p), .appeared], [.told (.ended p code), .fell],
          [.told (.collected q p code), .handed (some m) (some m), .freed]] := by
  have hk : Kernel.boot ⟨2, ⟨7⟩⟩ = .ok _ := rfl
  exact ⟨_, hk, by decide, by decide, (lives_of_run hk reuse).1 ⟨1, 6⟩⟩

end Chronicle

end Lifecycle
