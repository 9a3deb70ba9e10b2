import Lifecycle.Kernel.Request
/-!
# Sessions

A kernel together with the callers that are blocked in a wait, numbered in the order of their calls.
Calls, the waking of sleepers and sleeps that end for no reason may follow each other in any order.
When nothing else happens, woken callers run one at a time, lowest number first, until none is left.
That ends: each of them either returns or goes back to sleep with a current ticket, and in the
second case it wakes nobody.
-/

namespace Lifecycle

/-- A blocked caller and its number. -/
structure Sleeper where
  id : Nat
  waiter : Waiter
deriving DecidableEq

/-- A kernel and the callers blocked in it. -/
structure Session where
  kernel : Kernel
  sleepers : List Sleeper
  nextId : Nat
deriving DecidableEq

/-- What a wait returns in the end. -/
abbrev Collected := Except Fault (Pid × ExitCode)

/-- What callers did: who returned with what, and what was told. -/
structure Activity where
  returned : List (Nat × Collected)
  events : List Event

namespace Activity

def none : Activity := ⟨[], []⟩

def append (a b : Activity) : Activity := ⟨a.returned ++ b.returned, a.events ++ b.events⟩

end Activity

namespace Session

def start (k : Kernel) : Session := ⟨k, [], 0⟩

/-- Serves a request on the kernel. -/
def serve (s : Session) (r : Request) : Session × Except Fault Answer × List Event :=
  let o := s.kernel.serve r
  ({ s with kernel := o.kernel }, o.result, o.events)

/-- What a wait did at once. -/
inductive Entered where
  | returned (result : Collected)
  | blocked (id : Nat)

/-- A new caller enters a wait. -/
def wait (s : Session) (parent : Pid) (target : Target) : Session × Entered × List Event :=
  let o := s.kernel.wait parent target
  let s' := { s with kernel := o.kernel, nextId := s.nextId + 1 }
  match o.result with
  | .error fault => (s', .returned (.error fault), o.events)
  | .ok (.collected p code) => (s', .returned (.ok (p, code)), o.events)
  | .ok (.asleep w) =>
    ({ s' with sleepers := s.sleepers ++ [⟨s.nextId, w⟩] }, .blocked s.nextId, o.events)

/-- Ends the sleep of the caller at an index of the list. -/
def rouse (s : Session) (i : Nat) : Session × Activity :=
  match s.sleepers[i]? with
  | none => (s, .none)
  | some sleeper =>
    let o := s.kernel.resume sleeper.waiter.caller
    match o.result with
    | .error fault =>
      ({ s with kernel := o.kernel, sleepers := s.sleepers.eraseIdx i },
        ⟨[(sleeper.id, .error fault)], o.events⟩)
    | .ok (.collected p code) =>
      ({ s with kernel := o.kernel, sleepers := s.sleepers.eraseIdx i },
        ⟨[(sleeper.id, .ok (p, code))], o.events⟩)
    | .ok (.asleep w) =>
      ({ s with kernel := o.kernel, sleepers := s.sleepers.set i ⟨sleeper.id, w⟩ },
        ⟨[], o.events⟩)

/-- Ends the sleep of a caller, if it is asleep. -/
def rouseId (s : Session) (id : Nat) : Option (Session × Activity) :=
  (s.sleepers.findIdx? (·.id = id)).map s.rouse

def isWoken (s : Session) (sleeper : Sleeper) : Bool := s.kernel.isWoken sleeper.waiter

/-- The first caller that has been woken. -/
def firstWoken? (s : Session) : Option Nat := s.sleepers.findIdx? s.isWoken

/-- Falls whenever a woken caller runs: a return makes the list shorter, and a caller that goes back
to sleep is no longer woken. -/
def unrest (s : Session) : Nat :=
  s.sleepers.length * (s.sleepers.length + 1) + s.sleepers.countP s.isWoken

end Session

/-! ## Settling -/

theorem Kernel.look_asleep {k : Kernel} {c : Caller} {w : Waiter}
    (h : (k.look c).result = .ok (.asleep w)) :
    (k.look c).kernel.channels = k.channels ∧ w = ⟨c, k.channels.ticket c.slot⟩ := by
  unfold look at h ⊢
  split at h
  · simp [refuse, fail] at h
  · split at h
    · rename_i i p code _
      cases hr : (k.collect c.parent i p code).result <;>
        simp [Outcome.map, Except.map, hr] at h
    · simp [refuse, fail] at h
    · simp_all [block]

theorem Kernel.resume_asleep {k : Kernel} {c : Caller} {w : Waiter}
    (h : (k.resume c).result = .ok (.asleep w)) :
    (k.resume c).kernel.channels = k.channels ∧ w = ⟨c, k.channels.ticket c.slot⟩ := by
  unfold resume at h ⊢
  split at h
  · simp [fail] at h
  · split at h
    · simp [refuse, fail] at h
    · simpa [*] using look_asleep h
    · simpa [*] using look_asleep h
    · simpa [*] using look_asleep h

namespace Session

theorem unrest_lt_of_shorter {s t : Session} (h : t.sleepers.length < s.sleepers.length) :
    t.unrest < s.unrest := by
  have hcount := List.countP_le_length (p := t.isWoken) (l := t.sleepers)
  have hmul : (t.sleepers.length + 1) * (t.sleepers.length + 2) ≤
      s.sleepers.length * (s.sleepers.length + 1) := Nat.mul_le_mul h (by omega)
  simp only [Nat.add_mul, Nat.mul_add] at hmul
  simp only [unrest, Nat.mul_add]
  omega

theorem isWoken_congr {s t : Session} (h : t.kernel.channels = s.kernel.channels) :
    t.isWoken = s.isWoken := by
  funext sleeper
  simp only [isWoken, Kernel.isWoken, h]

/-- A caller whose sleep is over returns, or it goes back to sleep with a current ticket. -/
theorem rouse_cases {s : Session} {i : Nat} {sleeper : Sleeper}
    (hi : s.sleepers[i]? = some sleeper) :
    (∃ result, (s.rouse i).2.returned = [(sleeper.id, result)] ∧
        (s.rouse i).1.sleepers = s.sleepers.eraseIdx i) ∨
      (s.rouse i).2.returned = [] ∧
        (s.rouse i).1.kernel.channels = s.kernel.channels ∧
        (s.rouse i).1.sleepers = s.sleepers.set i ⟨sleeper.id, sleeper.waiter.caller,
          s.kernel.channels.ticket sleeper.waiter.caller.slot⟩ := by
  rw [rouse, hi]
  dsimp only
  split
  · exact .inl ⟨_, rfl, rfl⟩
  · exact .inl ⟨_, rfl, rfl⟩
  · rename_i w hr
    obtain ⟨hch, rfl⟩ := Kernel.resume_asleep hr
    exact .inr ⟨rfl, hch, rfl⟩

/-- A ticket that has just been taken is current. -/
theorem isWoken_current (s : Session) (id : Nat) (c : Caller) :
    s.isWoken ⟨id, c, s.kernel.channels.ticket c.slot⟩ = false := by
  simp [isWoken, Kernel.isWoken]

theorem unrest_rouse_lt {s : Session} {i : Nat} {sleeper : Sleeper}
    (hi : s.sleepers[i]? = some sleeper) (hwoken : s.isWoken sleeper = true) :
    (s.rouse i).1.unrest < s.unrest := by
  obtain ⟨hlt, rfl⟩ := List.getElem?_eq_some_iff.mp hi
  rcases rouse_cases hi with ⟨_, -, hsleepers⟩ | ⟨-, hch, hsleepers⟩
  · apply unrest_lt_of_shorter
    rw [hsleepers, List.length_eraseIdx_of_lt hlt]
    omega
  · have hcurrent := s.isWoken_current s.sleepers[i].id s.sleepers[i].waiter.caller
    have hpos : 0 < s.sleepers.countP s.isWoken :=
      List.countP_pos_iff.mpr ⟨_, List.getElem_mem hlt, hwoken⟩
    simp only [unrest, hsleepers, List.length_set]
    rw [isWoken_congr hch, List.countP_set hlt, if_pos hwoken, hcurrent]
    simp only [Bool.false_eq_true, if_false]
    omega

theorem firstWoken?_eq_some {s : Session} {i : Nat} (h : s.firstWoken? = some i) :
    ∃ sleeper, s.sleepers[i]? = some sleeper ∧ s.isWoken sleeper = true := by
  obtain ⟨hi, hwoken, -⟩ := List.findIdx?_eq_some_iff_getElem.mp h
  exact ⟨_, List.getElem?_eq_getElem hi, hwoken⟩

/-- Runs woken callers one at a time, lowest number first, until none is left. -/
def settle (s : Session) : Session × Activity :=
  match _h : s.firstWoken? with
  | none => (s, .none)
  | some i =>
    let roused := s.rouse i
    let settled := roused.1.settle
    (settled.1, roused.2.append settled.2)
termination_by s.unrest
decreasing_by
  obtain ⟨sleeper, hi, hwoken⟩ := firstWoken?_eq_some (by assumption)
  exact unrest_rouse_lt hi hwoken

end Session

end Lifecycle
