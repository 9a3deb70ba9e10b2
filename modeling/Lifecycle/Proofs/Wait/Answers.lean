import Mathlib.Data.List.Nodup
import Mathlib.Data.List.Perm.Basic
import Lifecycle.Proofs.Wait.Turns
/-!
# What the answers of a queue say

The answers of a queue are lawful if each of them depends on the earlier ones alone, in one way:
a ticket is the number of wakes so far as a word, and a sleep returns at once unless its ticket is
just that. While no channel has been woken as often as a word can count, a sleeper has been woken
since its ticket was taken exactly if its channel counts more wakes than the ticket says. So the
answers tell of every sleeper whether it is blocked once everybody has looked.
-/

namespace Lifecycle

namespace Wait

variable {n c : Nat} {answers past as bs before after : List Answer} {a : Answer} {s : Sleep}

/-- The number of wakes of a channel. -/
def wakes (answers : List Answer) (c : Nat) : Nat := (answers.map (·.call)).count (.wake c)

@[simp] theorem wakes_nil : wakes [] c = 0 := rfl

@[simp] theorem wakes_append : wakes (as ++ bs) c = wakes as c + wakes bs c := by
  simp [wakes]

@[simp] theorem wakes_cons :
    wakes (a :: as) c = wakes as c + if a.call = .wake c then 1 else 0 := by
  simp [wakes, List.count_cons]

/-- The channel was woken. -/
def Woken (c : Nat) (answers : List Answer) : Prop := ∃ reply, ⟨.wake c, reply⟩ ∈ answers

theorem woken_iff : Woken c answers ↔ 0 < wakes answers c := by
  rw [wakes, List.count_pos_iff, List.mem_map]
  constructor
  · rintro ⟨reply, hmem⟩
    exact ⟨_, hmem, rfl⟩
  · rintro ⟨⟨call, reply⟩, hmem, rfl⟩
    exact ⟨reply, hmem⟩

theorem woken_append : Woken c (as ++ bs) ↔ Woken c as ∨ Woken c bs := by
  rw [woken_iff, woken_iff, woken_iff, wakes_append]
  omega

/-- The sleeper that a call leaves behind, unless it was answered at once. -/
def Answer.sleep? : Answer → Option Sleep
  | ⟨.sleep channel ticket, .ok (.asleep id)⟩ => some ⟨id, channel, ticket⟩
  | _ => none

def sleepers (answers : List Answer) : List Sleep := answers.filterMap Answer.sleep?

@[simp] theorem sleepers_append : sleepers (as ++ bs) = sleepers as ++ sleepers bs := by
  simp [sleepers]

theorem Answer.sleep?_eq_some :
    a.sleep? = some s ↔ a = ⟨.sleep s.channel s.ticket, .ok (.asleep s.id)⟩ := by
  constructor
  · intro h
    unfold sleep? at h
    split at h
    · cases h
      rfl
    · cases h
  · rintro rfl
    rfl

theorem mem_sleepers :
    s ∈ sleepers answers ↔ ⟨.sleep s.channel s.ticket, .ok (.asleep s.id)⟩ ∈ answers := by
  simp only [sleepers, List.mem_filterMap, Answer.sleep?_eq_some, exists_eq_right]

/-- What a call is answered when others have been answered before it. -/
def answerAfter (n : Nat) (past : List Answer) : Call → Except Fault Reply
  | .prepare c => if c < n then .ok (.ticket (.ofNat (wakes past c))) else .error .outOfBounds
  | .wake c => if c < n then .ok .woken else .error .outOfBounds
  | .sleep c ticket =>
    if c < n then
      if UInt64.ofNat (wakes past c) ≠ ticket then .ok .returned
      else .ok (.asleep (sleepers past).length)
    else .error .outOfBounds

/-- Every answer follows from those before it. -/
def Lawful (n : Nat) (answers : List Answer) : Prop :=
  ∀ before a after, answers = before ++ a :: after → a.reply = answerAfter n before a.call

/-- No channel has been woken as often as a word can count. -/
def Few (n : Nat) (answers : List Answer) : Prop := ∀ c < n, wakes answers c < UInt64.size

theorem Few.of_append (h : Few n (as ++ bs)) : Few n as := by
  intro c hc
  have hsum := h c hc
  rw [wakes_append] at hsum
  omega

theorem Few.of_turn {σ : Type} {k : Kind σ} {p : Play σ} (t : Turn)
    (h : Few n (k.turn p t).answers) : Few n p.answers := by
  cases t with
  | call c => exact h.of_append
  | notify | look s | settle => exact h

theorem few_run_iff {σ : Type} {k : Kind σ} {turns : List Turn} :
    Few n (k.run n turns).answers ↔ ∀ c < n, (callsOf turns).count (.wake c) < UInt64.size := by
  rw [← k.calls_run n turns]
  rfl

/-- How often a channel is woken depends on the calls alone. -/
theorem Few.of_calls {σ τ : Type} {k : Kind σ} (l : Kind τ) {turns turns' : List Turn}
    (hcalls : callsOf turns' = callsOf turns) (h : Few n (k.run n turns).answers) :
    Few n (l.run n turns').answers := by
  rw [few_run_iff, hcalls]
  exact few_run_iff.mp h

/-- The counter of each channel, as the wakes have left it. -/
def counts (n : Nat) (answers : List Answer) : List Ticket :=
  (List.range n).map fun c => .ofNat (wakes answers c)

theorem counts_getElem? :
    (counts n answers)[c]? = if c < n then some (.ofNat (wakes answers c)) else none := by
  by_cases hc : c < n <;> simp [counts, hc]

namespace Lawful

theorem nil : Lawful n [] := by
  intro before a after h
  simp at h

theorem concat (h : Lawful n past) (ha : a.reply = answerAfter n past a.call) :
    Lawful n (past ++ [a]) := by
  intro before b after hsplit
  rcases List.eq_nil_or_concat after with rfl | ⟨rest, last, rfl⟩
  · obtain ⟨rfl, hlast⟩ := List.append_inj' hsplit rfl
    cases hlast
    exact ha
  · rw [List.concat_eq_append, ← List.cons_append, ← List.append_assoc] at hsplit
    obtain ⟨rfl, -⟩ := List.append_inj' hsplit rfl
    exact h before b rest rfl

theorem of_append (h : Lawful n (as ++ bs)) : Lawful n as := by
  intro before a after hsplit
  apply h before a (after ++ bs)
  rw [hsplit, List.append_assoc, List.cons_append]

theorem last (h : Lawful n (past ++ [a])) : a.reply = answerAfter n past a.call :=
  h past a [] rfl

/-- Lawful answers are determined by the calls. -/
theorem unique (has : Lawful n as) (hbs : Lawful n bs)
    (hcalls : as.map (·.call) = bs.map (·.call)) : as = bs := by
  induction as using List.reverseRecOn generalizing bs with
  | nil =>
    rw [List.map_nil, eq_comm, List.map_eq_nil_iff] at hcalls
    exact hcalls.symm
  | append_singleton as a ih =>
    rcases List.eq_nil_or_concat bs with rfl | ⟨rest, b, rfl⟩
    · simp at hcalls
    · rw [List.concat_eq_append] at hbs hcalls ⊢
      rw [List.map_append, List.map_append] at hcalls
      obtain ⟨hpast, hcall⟩ := List.append_inj' hcalls rfl
      obtain rfl := ih has.of_append hbs.of_append hpast
      have hab : a.call = b.call := by simpa using hcall
      have hreply : a.reply = b.reply := by rw [has.last, hbs.last, hab]
      cases a
      cases b
      cases hab
      cases hreply
      rfl

/-- Sleepers are numbered in the order in which they fell asleep. -/
theorem ids (h : Lawful n answers) :
    (sleepers answers).map (·.id) = List.range (sleepers answers).length := by
  induction answers using List.reverseRecOn with
  | nil => rfl
  | append_singleton past a ih =>
    have hlast := h.last
    have hpast := ih h.of_append
    rw [sleepers_append, List.map_append, List.length_append, hpast]
    cases hsleep : a.sleep? with
    | none => simp [sleepers, hsleep]
    | some s =>
      rw [Answer.sleep?_eq_some.mp hsleep] at hlast
      have hid : s.id = (sleepers past).length := by
        simp only [answerAfter] at hlast
        split at hlast
        · split at hlast
          · cases hlast
          · simpa using hlast
        · cases hlast
      simp [sleepers, hsleep, hid, List.range_succ]

theorem nodup_ids (h : Lawful n answers) : ((sleepers answers).map (·.id)).Nodup := by
  rw [h.ids]
  exact List.nodup_range

/-- A sleeper sleeps on a channel whose wakes were as many as its ticket said. -/
theorem ticket_eq (h : Lawful n answers)
    (hsplit : answers = before ++ ⟨.sleep s.channel s.ticket, .ok (.asleep s.id)⟩ :: after) :
    s.channel < n ∧ s.ticket = .ofNat (wakes before s.channel) := by
  have hanswer := h _ _ _ hsplit
  simp only [answerAfter] at hanswer
  split at hanswer
  · split at hanswer
    · cases hanswer
    · rename_i hc hticket
      exact ⟨hc, (not_not.mp hticket).symm⟩
  · cases hanswer

theorem channel_lt (h : Lawful n answers) (hs : s ∈ sleepers answers) : s.channel < n := by
  obtain ⟨before, after, hsplit⟩ := List.append_of_mem (mem_sleepers.mp hs)
  exact (h.ticket_eq hsplit).1

/-- A ticket never says more wakes than there have been. -/
theorem ticket_le (h : Lawful n answers) (hfew : Few n answers) (hs : s ∈ sleepers answers) :
    s.ticket.toNat ≤ wakes answers s.channel := by
  obtain ⟨before, after, hsplit⟩ := List.append_of_mem (mem_sleepers.mp hs)
  obtain ⟨hc, hticket⟩ := h.ticket_eq hsplit
  have hfits := (hsplit ▸ hfew).of_append s.channel hc
  rw [hticket, UInt64.toNat_ofNat_of_lt' hfits, hsplit, wakes_append]
  exact Nat.le_add_right _ _

end Lawful

/-- The channel of a sleeper has been woken since its ticket was taken. -/
def Sleep.isWoken (s : Sleep) (answers : List Answer) : Bool :=
  s.ticket.toNat < wakes answers s.channel

theorem Sleep.isWoken_append (h : s.isWoken as = true) : s.isWoken (as ++ bs) = true := by
  rw [isWoken, decide_eq_true_iff] at h ⊢
  rw [wakes_append]
  omega

/-- A sleeper that looks at its counter sees whether it has been woken. -/
theorem Lawful.isOver_eq (h : Lawful n answers) (hfew : Few n answers) (hs : s ∈ sleepers answers) :
    s.isOver (counts n answers) = s.isWoken answers := by
  have hc := h.channel_lt hs
  have hle := h.ticket_le hfew hs
  have hcount := UInt64.toNat_ofNat_of_lt' (hfew _ hc)
  rw [Sleep.isOver, Sleep.isWoken, List.getD_eq_getElem?_getD, counts_getElem?, if_pos hc,
    Option.getD_some, decide_eq_decide, ne_eq, ← UInt64.toNat_inj, hcount]
  omega

end Wait

end Lifecycle
