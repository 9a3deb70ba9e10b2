import Lifecycle.Proofs.Wait.Answers
/-!
# Eventcounts

An eventcount lets a caller take a ticket of a channel and sleep with it later. The sleep returns
at once if the channel has been woken in between, it returns in the end if the channel is woken
afterwards, and it stays blocked otherwise, whatever happens on other channels. A queue whose
answers are lawful, and which has let go of the sleepers that were woken and of no others, is an
eventcount. Two queues that always come to that give the same answers and let go of the same
sleepers.
-/

namespace Lifecycle

namespace Wait

variable {n c : Nat} {ticket : Ticket} {reply : Except Fault Reply} {s : Sleep}
  {answers between after : List Answer} {asleep stay leave : List Sleep} {released : List Nat}

/-- A sleep with a ticket that its channel gave before: its reply, and what was answered between
the two and after both. -/
def Sleeps (answers : List Answer) (c : Nat) (ticket : Ticket) (reply : Except Fault Reply)
    (between after : List Answer) : Prop :=
  ∃ before, answers = before ++ ⟨.prepare c, .ok (.ticket ticket)⟩ ::
    (between ++ ⟨.sleep c ticket, reply⟩ :: after)

/-- What the answers of a queue promise of the sleepers that are blocked in the end and of those
that have been let go. -/
structure Eventcount (answers : List Answer) (asleep released : List Nat) : Prop where
  blocked_iff : ∀ {c ticket reply between after}, Sleeps answers c ticket reply between after →
    ((∃ id ∈ asleep, reply = .ok (.asleep id)) ↔ ¬Woken c (between ++ after))
  returned_iff : ∀ {c ticket reply between after}, Sleeps answers c ticket reply between after →
    (reply = .ok .returned ↔ Woken c between)
  released_iff : ∀ {c ticket reply between after}, Sleeps answers c ticket reply between after →
    ((∃ id ∈ released, reply = .ok (.asleep id)) ↔ ¬Woken c between ∧ Woken c after)
  wake_releases : ∀ {before after c reply}, answers = before ++ ⟨.wake c, reply⟩ :: after →
    ∀ {ticket id}, ⟨.sleep c ticket, .ok (.asleep id)⟩ ∈ before → id ∈ released ∧ id ∉ asleep

/-- A ticket is the number of wakes before it. -/
theorem Lawful.prepared {before rest : List Answer} (h : Lawful n answers)
    (hsplit : answers = before ++ ⟨.prepare c, .ok (.ticket ticket)⟩ :: rest) :
    c < n ∧ ticket = .ofNat (wakes before c) := by
  have hprepare := h before _ rest hsplit
  simp only [answerAfter] at hprepare
  split at hprepare
  · rename_i hc
    exact ⟨hc, by simpa using hprepare⟩
  · cases hprepare

/-- A sleep with an earlier ticket is answered at once if its channel has been woken since, and
leaves a sleeper otherwise, who has been woken if the channel was woken later. -/
theorem Lawful.reply_cases (h : Lawful n answers) (hfew : Few n answers)
    (hs : Sleeps answers c ticket reply between after) :
    (Woken c between ∧ reply = .ok .returned) ∨
      ∃ id, ¬Woken c between ∧ reply = .ok (.asleep id) ∧ ⟨id, c, ticket⟩ ∈ sleepers answers ∧
        ((⟨id, c, ticket⟩ : Sleep).isWoken answers = true ↔ Woken c after) := by
  obtain ⟨before, rfl⟩ := hs
  obtain ⟨hc, hticket⟩ := h.prepared rfl
  let past := before ++ ⟨.prepare c, .ok (.ticket ticket)⟩ :: between
  have hsleep := h past ⟨.sleep c ticket, reply⟩ after (by simp [past])
  have hpast : wakes past c = wakes before c + wakes between c := by simp [past]
  have hbound := hfew c hc
  simp only [wakes_append, wakes_cons, reduceCtorEq, if_false, Nat.add_zero] at hbound
  have hcount : ticket.toNat = wakes before c := by
    rw [hticket]
    exact UInt64.toNat_ofNat_of_lt' (by omega)
  -- no count up to the sleep wraps around, so it differs from the ticket only if it has grown
  have hmoved : UInt64.ofNat (wakes past c) ≠ ticket ↔ Woken c between := by
    rw [ne_eq, ← UInt64.toNat_inj, hpast, UInt64.toNat_ofNat_of_lt' (by omega), hcount, woken_iff]
    omega
  rw [answerAfter, if_pos hc] at hsleep
  by_cases hwoken : Woken c between
  · left
    rw [if_pos (hmoved.mpr hwoken)] at hsleep
    exact ⟨hwoken, hsleep⟩
  · right
    rw [if_neg (mt hmoved.mp hwoken)] at hsleep
    change reply = _ at hsleep
    subst hsleep
    refine ⟨_, hwoken, rfl, mem_sleepers.mpr (by simp), ?_⟩
    rw [woken_iff] at hwoken ⊢
    rw [Sleep.isWoken, decide_eq_true_iff, hcount]
    simp only [wakes_append, wakes_cons, reduceCtorEq, if_false, Nat.add_zero]
    omega

/-- The sleepers with a property are told by their numbers. -/
theorem Lawful.id_mem_iff (h : Lawful n answers) (hs : s ∈ sleepers answers) (P : Sleep → Bool) :
    s.id ∈ ((sleepers answers).filter P).map (·.id) ↔ P s = true := by
  rw [List.mem_map]
  constructor
  · rintro ⟨s', hs', hid⟩
    obtain ⟨hmem, hP⟩ := List.mem_filter.mp hs'
    rwa [List.inj_on_of_nodup_map h.nodup_ids hmem hs hid] at hP
  · intro hP
    exact ⟨s, List.mem_filter.mpr ⟨hs, hP⟩, rfl⟩

/-- Nobody who was woken is blocked, and nobody else has been let go. -/
structure Settled (answers : List Answer) (asleep : List Sleep) (released : List Nat) : Prop where
  asleep : asleep.Perm ((sleepers answers).filter (!·.isWoken answers))
  released : released.Perm (((sleepers answers).filter (·.isWoken answers)).map (·.id))

namespace Settled

theorem id_mem_asleep (h : Settled answers asleep released) (hlawful : Lawful n answers)
    (hs : s ∈ sleepers answers) : s.id ∈ asleep.map (·.id) ↔ ¬s.isWoken answers = true := by
  rw [(h.asleep.map _).mem_iff, hlawful.id_mem_iff hs]
  simp

theorem id_mem_released (h : Settled answers asleep released) (hlawful : Lawful n answers)
    (hs : s ∈ sleepers answers) : s.id ∈ released ↔ s.isWoken answers = true := by
  rw [h.released.mem_iff, hlawful.id_mem_iff hs]

/-- A queue that is settled is an eventcount. -/
theorem eventcount (h : Settled answers asleep released) (hlawful : Lawful n answers)
    (hfew : Few n answers) : Eventcount answers (asleep.map (·.id)) released where
  blocked_iff := by
    intro c ticket reply between after hs
    rw [woken_append]
    rcases hlawful.reply_cases hfew hs with ⟨hwoken, rfl⟩ | ⟨id, hwoken, rfl, hmem, hafter⟩
    · simp [hwoken]
    · have hblocked := h.id_mem_asleep hlawful hmem
      simp only [Except.ok.injEq, Reply.asleep.injEq, exists_eq_right', hwoken, false_or, ← hafter]
      exact hblocked
  returned_iff := by
    intro c ticket reply between after hs
    rcases hlawful.reply_cases hfew hs with ⟨hwoken, rfl⟩ | ⟨id, hwoken, rfl, -, -⟩
    · simp [hwoken]
    · simp [hwoken]
  released_iff := by
    intro c ticket reply between after hs
    rcases hlawful.reply_cases hfew hs with ⟨hwoken, rfl⟩ | ⟨id, hwoken, rfl, hmem, hafter⟩
    · simp [hwoken]
    · have hreleased := h.id_mem_released hlawful hmem
      simp only [Except.ok.injEq, Reply.asleep.injEq, exists_eq_right', hwoken, not_false_eq_true,
        true_and, ← hafter]
      exact hreleased
  wake_releases := by
    rintro before after c reply rfl ticket id hsleep
    have hbefore : ⟨id, c, ticket⟩ ∈ sleepers before := mem_sleepers.mpr hsleep
    have hmem : ⟨id, c, ticket⟩ ∈ sleepers (before ++ ⟨.wake c, reply⟩ :: after) := by
      rw [sleepers_append]
      exact List.mem_append_left _ hbefore
    have hticket := hlawful.of_append.ticket_le hfew.of_append hbefore
    have hwoken :
        (⟨id, c, ticket⟩ : Sleep).isWoken (before ++ ⟨.wake c, reply⟩ :: after) = true := by
      rw [Sleep.isWoken, decide_eq_true_iff, wakes_append, wakes_cons, if_pos rfl]
      dsimp only at hticket ⊢
      omega
    exact ⟨(h.id_mem_released hlawful hmem).mpr hwoken,
      fun hasleep => (h.id_mem_asleep hlawful hmem).mp hasleep hwoken⟩

end Settled

/-- Every sleeper is blocked or has been let go, and those that have been let go were woken. This
holds all the time, whereas some that were woken may not have looked yet. -/
def Accounted (answers : List Answer) (asleep : List Sleep) (released : List Nat) : Prop :=
  ∃ gone, released = gone.map (·.id) ∧ (asleep ++ gone).Perm (sleepers answers) ∧
    ∀ s ∈ gone, s.isWoken answers = true

namespace Accounted

theorem mem (h : Accounted answers asleep released) (hs : s ∈ asleep) : s ∈ sleepers answers := by
  obtain ⟨gone, -, hperm, -⟩ := h
  exact hperm.mem_iff.mp (List.mem_append_left _ hs)

/-- An answer adds the sleeper that it leaves behind. -/
theorem answer (h : Accounted answers asleep released) (a : Answer) :
    Accounted (answers ++ [a]) (asleep ++ sleepers [a]) released := by
  obtain ⟨gone, hreleased, hperm, hwoken⟩ := h
  refine ⟨gone, hreleased, ?_, fun s hs => Sleep.isWoken_append (hwoken s hs)⟩
  rw [sleepers_append, List.append_assoc]
  apply (List.perm_append_comm.append_left asleep).trans
  rw [← List.append_assoc]
  exact hperm.append_right _

/-- Sleepers who were woken may be let go. -/
theorem release (h : Accounted answers asleep released) (hsplit : asleep.Perm (stay ++ leave))
    (hleave : ∀ s ∈ leave, s.isWoken answers = true) :
    Accounted answers stay (released ++ leave.map (·.id)) := by
  obtain ⟨gone, rfl, hperm, hwoken⟩ := h
  refine ⟨gone ++ leave, by simp, ?_, ?_⟩
  · refine List.Perm.trans ?_ ((hsplit.symm.append_right gone).trans hperm)
    rw [List.append_assoc]
    exact List.perm_append_comm.append_left stay
  · intro s hs
    rcases List.mem_append.mp hs with hs | hs
    · exact hwoken s hs
    · exact hleave s hs

/-- Once nobody who was woken is blocked, the queue is settled. -/
theorem settled (h : Accounted answers asleep released)
    (hrest : ∀ s ∈ asleep, s.isWoken answers = false) : Settled answers asleep released := by
  obtain ⟨gone, rfl, hperm, hwoken⟩ := h
  constructor
  · have hfilter := hperm.filter (!·.isWoken answers)
    rwa [List.filter_append, List.filter_eq_self.mpr (by simpa using hrest),
      List.filter_eq_nil_iff.mpr (by simpa using hwoken), List.append_nil] at hfilter
  · have hfilter := hperm.filter (·.isWoken answers)
    rw [List.filter_append, List.filter_eq_nil_iff.mpr (by simpa using hrest),
      List.filter_eq_self.mpr hwoken, List.nil_append] at hfilter
    exact hfilter.map _

end Accounted

namespace Kind

variable {σ τ : Type}

/-- The sleepers that are blocked. -/
def blocked (k : Kind σ) (p : Play σ) : List Nat := (k.asleep p.queue).map (·.id)

/-- Whatever the turns, as long as they do not wake a channel as often as a word can count, the
queue answers lawfully, and it is settled once everybody with reason to look has done so. -/
structure Faithful (k : Kind σ) : Prop where
  lawful : ∀ {n turns}, Few n (k.run n turns).answers → Lawful n (k.run n turns).answers
  settled : ∀ {n turns}, Few n (k.run n turns).answers →
    Settled (k.run n turns).answers (k.asleep (k.run n (turns ++ [.settle])).queue)
      (k.run n (turns ++ [.settle])).released

variable {k : Kind σ} {l : Kind τ} {turns turns' : List Turn}

theorem answers_settle (k : Kind σ) (n : Nat) (turns : List Turn) :
    (k.run n (turns ++ [.settle])).answers = (k.run n turns).answers := by
  rw [run_concat]
  rfl

namespace Faithful

theorem eventcount (h : k.Faithful) (hfew : Few n (k.run n turns).answers) :
    Eventcount (k.run n (turns ++ [.settle])).answers (k.blocked (k.run n (turns ++ [.settle])))
      (k.run n (turns ++ [.settle])).released := by
  rw [answers_settle]
  exact (h.settled hfew).eventcount (h.lawful hfew) hfew

/-- Two faithful queues give the same answers to the same calls, whenever their sleepers look. -/
theorem answers_eq (h : k.Faithful) (hl : l.Faithful) (hcalls : callsOf turns' = callsOf turns)
    (hfew : Few n (k.run n turns).answers) :
    (l.run n turns').answers = (k.run n turns).answers := by
  apply (hl.lawful (hfew.of_calls l hcalls)).unique (h.lawful hfew)
  rw [calls_run, calls_run, hcalls]

/-- Two faithful queues have let go of the same sleepers in the end. -/
theorem settled_alike (h : k.Faithful) (hl : l.Faithful) (hcalls : callsOf turns' = callsOf turns)
    (hfew : Few n (k.run n turns).answers) :
    (l.blocked (l.run n (turns' ++ [.settle]))).Perm (k.blocked (k.run n (turns ++ [.settle]))) ∧
      (l.run n (turns' ++ [.settle])).released.Perm (k.run n (turns ++ [.settle])).released := by
  have hanswers := h.answers_eq hl hcalls hfew
  have hsettled := h.settled hfew
  have hsettled' := hl.settled (hfew.of_calls l hcalls)
  rw [hanswers] at hsettled'
  exact ⟨(hsettled'.asleep.trans hsettled.asleep.symm).map _,
    hsettled'.released.trans hsettled.released.symm⟩

end Faithful

end Kind

end Wait

end Lifecycle
