import Lifecycle.Scenario.Bench
/-!
# Plays that succeed

What it takes for a play to succeed from a bench, and how it leaves the bench. A play made of parts
succeeds if each part does on the bench that the parts before it have left, so a play can be followed
step by step, up to the part in which it fails if it does not succeed.
-/

namespace Lifecycle

namespace Scenario

/-- The bench after a step on its kernel. -/
def Bench.after {σ α : Type} (b : Bench σ) (o : Outcome α) : Bench σ :=
  { b with kernel := o.kernel, journal := b.journal.tell .main o.events }

namespace Play

variable {σ α β : Type}

/-- A play succeeds from a bench, with a result and on a bench of a given kind. -/
def Yields (play : Play σ α) (b : Bench σ) (post : α → Bench σ → Prop) : Prop :=
  ∃ a b', play.run.run b = (.ok a, b') ∧ post a b'

variable {b : Bench σ} {play : Play σ α} {post post' : α → Bench σ → Prop}

theorem Yields.mono (h : Yields play b post) (himp : ∀ a b', post a b' → post' a b') :
    Yields play b post' := by
  obtain ⟨a, b', hrun, hpost⟩ := h
  exact ⟨a, b', hrun, himp a b' hpost⟩

/-- What is known of a run that succeeds. -/
theorem yields_of_run {a : α} {b' : Bench σ} (hrun : play.run.run b = (.ok a, b')) :
    Yields play b post ↔ post a b' := by
  constructor
  · intro h
    obtain ⟨a₁, b₁, hrun₁, hpost⟩ := h
    cases hrun.symm.trans hrun₁
    exact hpost
  · intro h
    exact ⟨a, b', hrun, h⟩

@[simp] theorem yields_pure {a : α} : Yields (pure a) b post ↔ post a b := yields_of_run rfl

theorem run_bind (play : Play σ α) (f : α → Play σ β) (b : Bench σ) :
    (play >>= f).run.run b = match play.run.run b with
      | (.ok a, b') => (f a).run.run b'
      | (.error e, b') => (.error e, b') := by
  rw [ExceptT.run_bind, StateT.run_bind]
  cases play.run.run b with
  | mk r b' => cases r <;> rfl

/-- The second part of a play goes on where the first one stopped. -/
@[simp] theorem yields_bind {f : α → Play σ β} {post : β → Bench σ → Prop} :
    Yields (play >>= f) b post ↔ Yields play b fun a b' => Yields (f a) b' post := by
  constructor
  · intro h
    obtain ⟨c, b', hc, hpost⟩ := h
    rw [run_bind] at hc
    cases hp : play.run.run b with
    | mk r b₁ =>
      rw [hp] at hc
      cases r with
      | error e => cases hc
      | ok a => exact ⟨a, b₁, hp, c, b', hc, hpost⟩
  · intro h
    obtain ⟨a, b₁, hp, c, b', hc, hpost⟩ := h
    refine ⟨c, b', ?_, hpost⟩
    rw [run_bind, hp]
    exact hc

@[simp] theorem yields_get {post : Bench σ → Bench σ → Prop} : Yields get b post ↔ post b b :=
  yields_of_run rfl

@[simp] theorem yields_modify {f : Bench σ → Bench σ} {post : Unit → Bench σ → Prop} :
    Yields (modify f) b post ↔ post () (f b) := yields_of_run rfl

@[simp] theorem yields_table {post : Table → Bench σ → Prop} :
    Yields table b post ↔ post b.kernel.table b := yields_of_run rfl

@[simp] theorem yields_tell {event : Event} {post : Unit → Bench σ → Prop} :
    Yields (tell event) b post ↔ post () { b with journal := b.journal.tell .main [event] } :=
  yields_of_run rfl

@[simp] theorem yields_attempt {step : Kernel → Outcome α}
    {post : Except Fault α → Bench σ → Prop} : Yields (attempt step) b post ↔
      post (step b.kernel).result (b.after (step b.kernel)) := yields_of_run rfl

/-- A step that must succeed does. -/
theorem yields_need {step : Kernel → Outcome α} {a : α} (h : (step b.kernel).result = .ok a) :
    Yields (need step) b post ↔ post a (b.after (step b.kernel)) := by
  rw [need, yields_bind, yields_attempt, h]
  exact yields_pure

theorem yields_verify {post : Unit → Bench σ → Prop} (h : b.kernel.table.audit = none) :
    Yields verify b post ↔ post () b := by
  rw [verify, yields_bind, yields_table, h]
  exact yields_pure

/-- A play that is repeated for the elements of a list keeps what is known while some of them are
left. -/
theorem yields_forM {f : α → Play σ PUnit} (inv : List α → Bench σ → Prop)
    (hstep : ∀ a rest b, inv (a :: rest) b → Yields (f a) b fun _ b' => inv rest b') {l : List α}
    (h : inv l b) : Yields (l.forM f) b fun _ b' => inv [] b' := by
  induction l generalizing b with
  | nil =>
    exact yields_pure.mpr h
  | cons a rest ih =>
    have hparts : (a :: rest).forM f = f a >>= fun _ => rest.forM f := rfl
    rw [hparts, yields_bind]
    exact (hstep a rest b h).mono fun _ b' hb' => ih hb'

/-- A play comes to a result or to a failure of a given kind, on a bench of a given kind. -/
def Ends (play : Play σ α) (b : Bench σ) (post : Except Failure α → Bench σ → Prop) : Prop :=
  ∃ r b', play.run.run b = (r, b') ∧ post r b'

theorem ends_pure {a : α} {post : Except Failure α → Bench σ → Prop} :
    Ends (pure a) b post ↔ post (.ok a) b :=
  ⟨fun ⟨_, _, hrun, hpost⟩ => by cases hrun; exact hpost, fun h => ⟨_, _, rfl, h⟩⟩

theorem ends_throw {failure : Failure} {post : Except Failure α → Bench σ → Prop} :
    Ends (throw failure) b post ↔ post (.error failure) b :=
  ⟨fun ⟨_, _, hrun, hpost⟩ => by cases hrun; exact hpost, fun h => ⟨_, _, rfl, h⟩⟩

/-- After a part that succeeds a play ends as its next part does. -/
theorem Yields.ends {f : α → Play σ β} {post : Except Failure β → Bench σ → Prop}
    (h : Yields play b fun a b' => Ends (f a) b' post) : Ends (play >>= f) b post := by
  obtain ⟨a, b₁, hp, r, b', hr, hpost⟩ := h
  refine ⟨r, b', ?_, hpost⟩
  rw [run_bind, hp]
  exact hr

/-- What a play comes to is what it reports. -/
theorem Ends.report {k : Kernel} {journal : Journal} {own : σ}
    {post : Except Failure α → Bench σ → Prop} (h : Ends play ⟨k, journal, own⟩ post) :
    ∃ r b', post r b' ∧ play.result k journal own = ⟨r, b'.kernel, b'.journal⟩ := by
  obtain ⟨r, b', hrun, hpost⟩ := h
  exact ⟨r, b', hpost, by simp only [result, hrun]⟩

/-- A play that succeeds reports its result. -/
theorem Yields.report {k : Kernel} {journal : Journal} {own : σ}
    (h : Yields play ⟨k, journal, own⟩ post) : ∃ a b', post a b' ∧
      play.result k journal own = ⟨.ok a, b'.kernel, b'.journal⟩ := by
  obtain ⟨a, b', hrun, hpost⟩ := h
  exact ⟨a, b', hpost, by simp only [result, hrun]⟩

end Play

end Scenario

end Lifecycle
