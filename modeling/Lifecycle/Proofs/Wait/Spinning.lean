import Lifecycle.Proofs.Wait.Eventcount
/-!
# The spinning queue is an eventcount

The counters of the spinning queue are the numbers of wakes as words, so each of its answers is
the lawful one. A sleeper that reads its counter leaves only if it was woken, and after everybody
has read once more nobody who was woken is left, in whatever order calls and readings came before.
-/

namespace Lifecycle

namespace Wait

variable {n c : Nat} {past : List Answer} {reply : Except Fault Reply} {turns : List Turn}

theorem counter_counts : counter (counts n past) c =
    if c < n then .ok (.ofNat (wakes past c)) else .error .outOfBounds := by
  rw [counter, counts_getElem?]
  by_cases hc : c < n <;> simp [hc]

/-- A call that is no wake leaves every counter as it is. -/
theorem counts_concat (call : Call) (h : ∀ c, call ≠ .wake c) :
    counts n (past ++ [⟨call, reply⟩]) = counts n past := by
  simp [counts, h]

/-- A wake moves the counter of its channel by one. -/
theorem counts_concat_wake :
    counts n (past ++ [⟨.wake c, reply⟩]) = (counts n past).modify c (· + 1) := by
  apply List.ext_getElem?
  intro i
  rw [List.getElem?_modify, counts_getElem?, counts_getElem?, wakes_append, wakes_cons, wakes_nil]
  by_cases hci : c = i
  · by_cases hi : i < n <;> simp [hci, hi, UInt64.ofNat_add]
  · simp [hci]

namespace SpinQueue

/-- The queue is what its answers say, and has accounted for its sleepers. -/
structure Sound (n : Nat) (p : Play SpinQueue) : Prop where
  counters : p.queue.counters = counts n p.answers
  nextId : p.queue.nextId = (sleepers p.answers).length
  lawful : Lawful n p.answers
  accounted : Accounted p.answers p.queue.spinning p.released

variable {p : Play SpinQueue}

namespace Sound

theorem start (n : Nat) : Sound n ⟨.start n, [], []⟩ where
  counters := by
    apply List.ext_getElem?
    intro i
    rw [counts_getElem?]
    by_cases hi : i < n <;> simp [SpinQueue.start, hi]
  nextId := rfl
  lawful := .nil
  accounted := ⟨[], rfl, .nil, by simp⟩

/-- A call is answered lawfully and leaves the queue that its answer says. -/
theorem call_eq (h : Sound n p) (call : Call) :
    let reply := answerAfter n p.answers call
    let answers := p.answers ++ [⟨call, reply⟩]
    p.queue.call call =
      (⟨counts n answers, p.queue.spinning ++ sleepers [⟨call, reply⟩], (sleepers answers).length⟩,
        reply) := by
  have hcounters := h.counters
  have hnextId := h.nextId
  generalize p.queue = q at hcounters hnextId ⊢
  obtain ⟨counters, spinning, nextId⟩ := q
  dsimp only at hcounters hnextId ⊢
  subst hcounters hnextId
  cases call with
  | prepare c =>
    rw [counts_concat (.prepare c) (by simp), SpinQueue.call, counter_counts, answerAfter]
    by_cases hc : c < n <;> simp [hc, sleepers, Answer.sleep?, Except.map]
  | wake c =>
    rw [counts_concat_wake, SpinQueue.call, counter_counts, answerAfter]
    by_cases hc : c < n
    · simp [hc, sleepers, Answer.sleep?]
    · -- without such a channel no counter moves
      have hlength : (counts n p.answers).length ≤ c := by simpa [counts] using hc
      simp [hc, sleepers, Answer.sleep?, List.modify_eq_self hlength]
  | sleep c ticket =>
    rw [counts_concat (.sleep c ticket) (by simp), SpinQueue.call, counter_counts, answerAfter]
    by_cases hc : c < n
    · by_cases hticket : UInt64.ofNat (wakes p.answers c) = ticket <;>
        simp [hc, hticket, sleepers, Answer.sleep?]
    · simp [hc, sleepers, Answer.sleep?]

theorem call (h : Sound n p) (call : Call) : Sound n (kind.turn p (.call call)) := by
  have hcall : kind.turn p (.call call) = p.answered call (p.queue.call call) := rfl
  rw [hcall, h.call_eq]
  exact ⟨rfl, rfl, h.lawful.concat rfl, h.accounted.answer _⟩

/-- Whoever sees that its counter has moved was woken. -/
theorem isOver_eq (h : Sound n p) (hfew : Few n p.answers) {s : Sleep} (hs : s ∈ p.queue.spinning) :
    s.isOver p.queue.counters = s.isWoken p.answers := by
  rw [h.counters]
  exact h.lawful.isOver_eq hfew (h.accounted.mem hs)

theorem look (h : Sound n p) (hfew : Few n p.answers) (s : Sleep) :
    Sound n (kind.turn p (.look s)) := by
  have hlook : kind.turn p (.look s) = p.looked (p.queue.look s) := rfl
  rw [hlook, SpinQueue.look]
  split
  · rename_i hover
    obtain ⟨hs, hover⟩ := hover
    have hsplit : p.queue.spinning.Perm (p.queue.spinning.erase s ++ [s]) :=
      (List.perm_cons_erase hs).trans (List.perm_append_singleton s _).symm
    refine ⟨h.counters, h.nextId, h.lawful, h.accounted.release hsplit ?_⟩
    intro s' hs'
    rw [List.mem_singleton.mp hs', ← h.isOver_eq hfew hs]
    exact hover
  · simpa [Play.looked] using h

theorem settle (h : Sound n p) (hfew : Few n p.answers) : Sound n (kind.turn p .settle) := by
  refine ⟨h.counters, h.nextId, h.lawful, h.accounted.release ?_ ?_⟩
  · exact (List.perm_append_comm.trans (List.filter_append_perm _ _)).symm
  · intro s hs
    obtain ⟨hs, hover⟩ := List.mem_filter.mp hs
    rwa [h.isOver_eq hfew hs] at hover

theorem turn (h : Sound n p) (t : Turn) (hfew : Few n (kind.turn p t).answers) :
    Sound n (kind.turn p t) := by
  cases t with
  | call call => exact h.call call
  | notify => exact h
  | look s => exact h.look hfew s
  | settle => exact h.settle hfew

/-- Once everybody has read again, exactly those are blocked who were not woken. -/
theorem settled (h : Sound n p) (hfew : Few n p.answers) :
    Settled p.answers (kind.turn p .settle).queue.spinning (kind.turn p .settle).released := by
  apply (h.settle hfew).accounted.settled
  intro s hs
  obtain ⟨hs, hstays⟩ := List.mem_filter.mp hs
  change s.isWoken p.answers = false
  rw [← h.isOver_eq hfew hs]
  simpa using hstays

end Sound

/-- Every run with fewer wakes of a channel than a word can count is sound. -/
theorem sound_run (hfew : Few n (kind.run n turns).answers) : Sound n (kind.run n turns) := by
  induction turns using List.reverseRecOn with
  | nil => exact .start n
  | append_singleton turns t ih =>
    rw [Kind.run_concat] at hfew ⊢
    exact (ih (hfew.of_turn t)).turn t hfew

theorem faithful : kind.Faithful where
  lawful := by
    intro n turns hfew
    exact (sound_run hfew).lawful
  settled := by
    intro n turns hfew
    rw [Kind.run_concat]
    exact (sound_run hfew).settled hfew

end SpinQueue

end Wait

end Lifecycle
