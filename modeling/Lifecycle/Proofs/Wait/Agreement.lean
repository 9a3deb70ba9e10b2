import Lifecycle.Proofs.Wait.Spinning
/-!
# Spinning and broadcasting agree

Turn by turn, a broadcasting queue does what a spinning queue does: counters, numbers and answers
are the same, the same sleepers are asleep, be they parked or notified, and the same ones have been
let go. What makes the notifications enough is that a parked sleeper whose counter has moved is
still owed one. So both queues are eventcounts, and what they answer and whom they let go is the
same even if their sleepers look in different orders.
-/

namespace Lifecycle

namespace Wait

namespace Broadcast

variable {n : Nat} {p : Play SpinQueue} {m : Play Midway} {q : SpinQueue} {u : Midway} {s : Sleep}
  {turns : List Turn}

/-- Whoever is stirred is the first of the notified, and nobody is lost. -/
theorem stir_eq (q : Broadcast) (hs : s ∈ q.parked ++ q.notified) :
    ∃ parked rest, q.stir s = { q with parked := parked, notified := s :: rest } ∧
      (s :: (parked ++ rest)).Perm (q.parked ++ q.notified) ∧ parked ⊆ q.parked := by
  by_cases hparked : s ∈ q.parked
  · refine ⟨q.parked.erase s, q.notified, by simp [stir, hparked], ?_, List.erase_subset⟩
    rw [← List.cons_append]
    exact (List.perm_cons_erase hparked).symm.append_right _
  · have hnotified : s ∈ q.notified := (List.mem_append.mp hs).resolve_left hparked
    refine ⟨q.parked, q.notified.erase s, by simp [stir, hparked], ?_, fun _ h => h⟩
    exact List.perm_middle.symm.trans ((List.perm_cons_erase hnotified).symm.append_left _)

/-- The two queues are in the same situation, and a parked sleeper with reason to look is owed a
notification. -/
structure Mirrors (u : Midway) (q : SpinQueue) : Prop where
  counters : u.queue.counters = q.counters
  nextId : u.queue.nextId = q.nextId
  asleep : (u.queue.parked ++ u.queue.notified).Perm q.spinning
  owed : u.owed = 0 → ∀ s ∈ u.queue.parked, s.isOver u.queue.counters = false

/-- The counter that a wake moves is not full. -/
def Roomy (q : SpinQueue) : Call → Prop
  | .wake c => ∀ count, q.counters[c]? = some count → count.toNat + 1 < UInt64.size
  | .prepare _ | .sleep _ _ => True

namespace Mirrors

theorem start (n : Nat) : Mirrors ⟨.start n, 0⟩ (.start n) :=
  ⟨rfl, rfl, .nil, fun _ _ hs => absurd hs List.not_mem_nil⟩

/-- A call gets the same answer from both queues. -/
theorem call (h : Mirrors u q) (call : Call) (hroomy : Roomy q call) :
    Mirrors (u.call call).1 (q.call call).1 ∧ (u.call call).2 = (q.call call).2 := by
  obtain ⟨⟨counters, parked, notified, nextId⟩, owed⟩ := u
  obtain ⟨counters', spinning, nextId'⟩ := q
  obtain ⟨rfl, rfl, hasleep, howed⟩ := h
  dsimp only at hasleep howed
  cases call with
  | prepare c => exact ⟨⟨rfl, rfl, hasleep, howed⟩, rfl⟩
  | wake c =>
    simp only [Midway.call, bump, SpinQueue.call, counter]
    cases hcount : counters[c]? with
    | none => exact ⟨⟨rfl, rfl, hasleep, howed⟩, rfl⟩
    | some count =>
      -- with room in the counter, adding with a check and adding modulo the word are the same
      have hfits : checkedAdd count 1 = some (count + 1) := if_pos (hroomy count hcount)
      have hset : counters.set c (count + 1) = counters.modify c (· + 1) := by
        rw [List.modify_eq_set_getElem?, hcount]
        rfl
      simp only [hfits, hset, and_true]
      exact ⟨rfl, rfl, hasleep, fun hnone => absurd hnone (Nat.succ_ne_zero owed)⟩
  | sleep c ticket =>
    simp only [Midway.call, Broadcast.call, SpinQueue.call, counter]
    cases hcount : counters[c]? with
    | none => exact ⟨⟨rfl, rfl, hasleep, howed⟩, rfl⟩
    | some count =>
      by_cases hticket : count = ticket
      · simp only [hticket, ne_eq, not_true_eq_false, if_false, and_true]
        refine ⟨rfl, rfl, ?_, ?_⟩
        · apply List.Perm.trans _ (hasleep.append_right _)
          rw [List.append_assoc, List.append_assoc]
          exact List.perm_append_comm.append_left parked
        · intro hnone s hs
          rcases List.mem_append.mp hs with hs | hs
          · exact howed hnone s hs
          · rw [List.mem_singleton.mp hs]
            simp [Sleep.isOver, List.getD_eq_getElem?_getD, hcount, hticket]
      · simp only [ne_eq, hticket, not_false_eq_true, if_true, and_true]
        exact ⟨rfl, rfl, hasleep, howed⟩

/-- Notifying everybody leaves nothing owed to those who are parked: there are none. -/
theorem notifyAll (h : Mirrors u q) (owed : Nat) : Mirrors ⟨u.queue.notifyAll, owed⟩ q := by
  have hasleep : (u.queue.notified ++ u.queue.parked).Perm q.spinning :=
    List.perm_append_comm.trans h.asleep
  exact ⟨h.counters, h.nextId, hasleep, fun _ _ hs => absurd hs List.not_mem_nil⟩

theorem notify (h : Mirrors u q) : Mirrors u.notify q := by
  rw [Midway.notify]
  split
  · exact h
  · exact h.notifyAll _

theorem look (h : Mirrors u q) (s : Sleep) :
    Mirrors (u.look s).1 (q.look s).1 ∧ (u.look s).2 = (q.look s).2 := by
  obtain ⟨⟨counters, parked, notified, nextId⟩, owed⟩ := u
  obtain ⟨counters', spinning, nextId'⟩ := q
  obtain ⟨rfl, rfl, hasleep, howed⟩ := h
  dsimp only at hasleep howed
  simp only [Midway.look, SpinQueue.look, hasleep.mem_iff]
  by_cases hs : s ∈ spinning
  · obtain ⟨parked', rest, hstir, hperm, hsub⟩ :=
      stir_eq ⟨counters, parked, notified, nextId⟩ (hasleep.mem_iff.mpr hs)
    have hrest := hperm.trans hasleep
    simp only [hs, if_true, true_and, hstir, recheck]
    cases hover : s.isOver counters with
    | true =>
      simp only [if_true, Option.toList_some, and_true]
      refine ⟨rfl, rfl, (List.cons_perm_iff_perm_erase.mp hrest).2, ?_⟩
      intro hnone s' hs'
      exact howed hnone s' (hsub hs')
    | false =>
      simp only [Bool.false_eq_true, if_false, Option.toList_none, and_true]
      refine ⟨rfl, rfl, ?_, ?_⟩
      · rw [List.append_assoc]
        exact List.perm_middle.trans hrest
      · intro hnone s' hs'
        rcases List.mem_append.mp hs' with hs' | hs'
        · exact howed hnone s' (hsub hs')
        · rw [List.mem_singleton.mp hs']
          exact hover
  · simp only [hs, if_false, false_and, and_true]
    exact ⟨rfl, rfl, hasleep, howed⟩

/-- With everything notified that was owed, those are let go whose counter has moved. -/
theorem settle (h : Mirrors u q) :
    Mirrors u.settle.1 q.poll.1 ∧ u.settle.2.Perm q.poll.2 := by
  -- either nobody parked has reason to look, or nobody is parked any more
  let v : Midway := ⟨if u.owed = 0 then u.queue else u.queue.notifyAll, 0⟩
  have hv : Mirrors v q := by
    by_cases hnone : u.owed = 0
    · simp only [v, hnone, if_true]
      exact ⟨h.counters, h.nextId, h.asleep, fun _ => h.owed hnone⟩
    · simp only [v, hnone, if_false]
      exact h.notifyAll 0
  have hsettle : u.settle = (⟨v.queue.recheckAll.1, 0⟩, v.queue.recheckAll.2) := rfl
  have hparked := hv.owed rfl
  have hstay := hv.asleep.filter (!·.isOver v.queue.counters)
  have hleave := hv.asleep.filter (·.isOver v.queue.counters)
  rw [List.filter_append, List.filter_eq_self.mpr (by simpa using hparked)] at hstay
  rw [List.filter_append, List.filter_eq_nil_iff.mpr (by simpa using hparked),
    List.nil_append] at hleave
  rw [hsettle, recheckAll_eq, SpinQueue.poll, ← hv.counters]
  refine ⟨⟨rfl, hv.nextId, ?_, ?_⟩, hleave.map _⟩
  · simpa using hstay
  · intro _ s hs
    rcases List.mem_append.mp hs with hs | hs
    · exact hparked s hs
    · simpa using (List.mem_filter.mp hs).2

end Mirrors

/-- A sound queue of which no channel is woken as often as a word can count has room for a wake. -/
theorem roomy_of_few (hp : SpinQueue.Sound n p) {call : Call} {reply : Except Fault Reply}
    (hfew : Few n (p.answers ++ [⟨call, reply⟩])) : Roomy p.queue call := by
  cases call with
  | prepare c => trivial
  | wake c =>
    intro count hcount
    rw [hp.counters, counts_getElem?] at hcount
    split at hcount
    · rename_i hc
      have hbound := hfew c hc
      rw [wakes_append, wakes_cons, if_pos rfl, wakes_nil] at hbound
      rw [← Option.some.inj hcount, UInt64.toNat_ofNat_of_lt' (by omega)]
      omega
    · cases hcount
  | sleep c ticket => trivial

/-- The two queues stand alike, and have answered and let go alike. -/
structure Follows (m : Play Midway) (p : Play SpinQueue) : Prop where
  queue : Mirrors m.queue p.queue
  answers : m.answers = p.answers
  released : m.released.Perm p.released

theorem Follows.turn (h : Follows m p) (hp : SpinQueue.Sound n p) (t : Turn)
    (hfew : Few n (SpinQueue.kind.turn p t).answers) :
    Follows (kind.turn m t) (SpinQueue.kind.turn p t) := by
  cases t with
  | call call =>
    obtain ⟨hqueue, hreply⟩ := h.queue.call call (roomy_of_few hp hfew)
    refine ⟨hqueue, ?_, h.released⟩
    change m.answers ++ [⟨call, (m.queue.call call).2⟩] =
      p.answers ++ [⟨call, (p.queue.call call).2⟩]
    rw [h.answers, hreply]
  | notify => exact ⟨h.queue.notify, h.answers, h.released⟩
  | look s =>
    obtain ⟨hqueue, hseen⟩ := h.queue.look s
    refine ⟨hqueue, h.answers, ?_⟩
    change (m.released ++ (m.queue.look s).2).Perm (p.released ++ (p.queue.look s).2)
    rw [hseen]
    exact h.released.append_right _
  | settle =>
    obtain ⟨hqueue, hseen⟩ := h.queue.settle
    exact ⟨hqueue, h.answers, h.released.append hseen⟩

/-- Turn by turn, the broadcasting queue follows the spinning one. -/
theorem follows_run (hfew : Few n (SpinQueue.kind.run n turns).answers) :
    Follows (kind.run n turns) (SpinQueue.kind.run n turns) := by
  induction turns using List.reverseRecOn with
  | nil => exact ⟨.start n, rfl, .nil⟩
  | append_singleton turns t ih =>
    rw [Kind.run_concat] at hfew
    rw [Kind.run_concat, Kind.run_concat]
    exact (ih (hfew.of_turn t)).turn (SpinQueue.sound_run (hfew.of_turn t)) t hfew

theorem faithful : kind.Faithful where
  lawful := by
    intro n turns hfew
    have hspun := hfew.of_calls SpinQueue.kind rfl
    rw [(follows_run hspun).answers]
    exact SpinQueue.faithful.lawful hspun
  settled := by
    intro n turns hfew
    have hspun := hfew.of_calls SpinQueue.kind rfl
    have hend := follows_run (Kind.answers_settle SpinQueue.kind n turns ▸ hspun)
    have hsettled := SpinQueue.faithful.settled hspun
    rw [(follows_run hspun).answers]
    exact ⟨hend.queue.asleep.trans hsettled.asleep, hend.released.trans hsettled.released⟩

end Broadcast

/-- Take any calls of which no channel is woken as often as a word can count, in any order with
notifications and looks, another one for each queue, and let everybody with reason to look do so in
the end. Both queues are eventcounts then: a sleep with an earlier ticket is blocked exactly if its
channel has not been woken since. They have given the same answers, the same sleepers are blocked,
and the same ones have been let go. -/
theorem queues_agree (n : Nat) {turns turns' : List Turn} (hcalls : callsOf turns' = callsOf turns)
    (hfew : ∀ c < n, (callsOf turns).count (.wake c) < UInt64.size) :
    let spun := SpinQueue.kind.run n (turns ++ [.settle])
    let told := Broadcast.kind.run n (turns' ++ [.settle])
    spun.answers.map (·.call) = callsOf turns ∧
      Eventcount spun.answers (SpinQueue.kind.blocked spun) spun.released ∧
      Eventcount told.answers (Broadcast.kind.blocked told) told.released ∧
      told.answers = spun.answers ∧
      (Broadcast.kind.blocked told).Perm (SpinQueue.kind.blocked spun) ∧
      told.released.Perm spun.released := by
  intro spun told
  have hspun : Few n (SpinQueue.kind.run n turns).answers := few_run_iff.mpr hfew
  have htold := hspun.of_calls Broadcast.kind hcalls
  have hanswers := SpinQueue.faithful.answers_eq Broadcast.faithful hcalls hspun
  refine ⟨?_, SpinQueue.faithful.eventcount hspun, Broadcast.faithful.eventcount htold, ?_,
    SpinQueue.faithful.settled_alike Broadcast.faithful hcalls hspun⟩
  · rw [Kind.answers_settle]
    exact Kind.calls_run _ _ _
  · rw [Kind.answers_settle, Kind.answers_settle]
    exact hanswers

/-- A wake that comes before the sleep on its channel, then sleepers on two other channels, of
which one is woken. Only the woken one reads its counter. -/
def reading : List Turn :=
  [.call (.prepare 1), .call (.wake 1), .call (.sleep 1 0), .call (.prepare 2), .call (.sleep 2 0),
    .call (.prepare 0), .call (.sleep 0 0), .call (.wake 2), .look ⟨0, 2, 0⟩]

/-- The same calls. The first wake notifies late, the other sleeper stirs although nobody has woken
it, and the last wake has not notified anybody yet. -/
def stirring : List Turn :=
  [.call (.prepare 1), .call (.wake 1), .call (.sleep 1 0), .call (.prepare 2), .call (.sleep 2 0),
    .notify, .call (.prepare 0), .call (.sleep 0 0), .look ⟨1, 0, 0⟩, .call (.wake 2)]

/-- Both queues let go of the sleeper that was woken and of nobody else. -/
theorem queues_agree_stirring :
    let spun := SpinQueue.kind.run 3 (reading ++ [.settle])
    let told := Broadcast.kind.run 3 (stirring ++ [.settle])
    callsOf stirring = callsOf reading ∧
      (∀ c < 3, (callsOf reading).count (.wake c) < UInt64.size) ∧
      SpinQueue.kind.blocked spun = [1] ∧ spun.released = [0] ∧
      Eventcount told.answers (Broadcast.kind.blocked told) told.released ∧
      told.answers = spun.answers ∧ (Broadcast.kind.blocked told).Perm [1] ∧
      told.released.Perm [0] := by
  intro spun told
  have hcalls : callsOf stirring = callsOf reading := by decide
  have hfew : ∀ c < 3, (callsOf reading).count (.wake c) < UInt64.size := by decide
  have hblocked : SpinQueue.kind.blocked spun = [1] := by decide
  have hreleased : spun.released = [0] := by decide
  obtain ⟨-, -, hevent, hanswers, hstay, hleave⟩ := queues_agree 3 hcalls hfew
  exact ⟨hcalls, hfew, hblocked, hreleased, hevent, hanswers, hblocked ▸ hstay, hreleased ▸ hleave⟩

end Wait

end Lifecycle
