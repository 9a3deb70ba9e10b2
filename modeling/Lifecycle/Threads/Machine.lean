import Lifecycle.Threads.Program
/-!
# Running programs

Every process has a thread that marks it running, follows its body and ends it with the code that
the body returns. The main thread, once it has directed the run, collects for the adopter until no
child is left, waits for the threads to be gone, and checks the table. Threads take turns in any
order; a turn is one step of the kernel. A thread whose wait has not been woken, and a main thread
that waits for threads, cannot move.
-/

namespace Lifecycle

/-- How far the thread of a process is. -/
inductive Phase (σ : Type) where
  /-- It has not marked its process running. -/
  | starting (state : σ)
  | active (state : σ)
  /-- It is napping and will become ready. -/
  | napping (state : σ)
  /-- It is ready and will go on. -/
  | pausing (state : σ)
  | blocked (state : σ) (waiter : Waiter)
  | gone

/-- The thread of a process. -/
structure Thread (σ : Type) where
  pid : Pid
  phase : Phase σ

def Thread.isGone {σ : Type} (t : Thread σ) : Bool :=
  match t.phase with
  | .gone => true
  | _ => false

/-- What a run yields: whom the adopter collected, in order. -/
abbrev Verdict := Except Failure (List (Pid × ExitCode))

/-- How far the main thread is. -/
inductive MainPhase (μ : Type) where
  | directing (state : μ)
  | collecting (reaped : List (Pid × ExitCode))
  | blocked (reaped : List (Pid × ExitCode)) (waiter : Waiter)
  | joining (reaped : List (Pid × ExitCode))
  | ended (verdict : Verdict)

/-- A running program. -/
structure Machine (σ μ ν : Type) where
  kernel : Kernel
  main : MainPhase μ
  threads : List (Thread σ)
  notes : Array ν
  journal : Journal

/-- Whose turn it is. -/
inductive Turn where
  | main
  | thread (index : Nat)
deriving DecidableEq

namespace Machine

variable {σ μ ν : Type}

def start (k : Kernel) (state : μ) (journal : Journal) : Machine σ μ ν :=
  ⟨k, .directing state, [], #[], journal⟩

/-- Takes over the kernel that an operation leads to, and what it tells. -/
def after {α : Type} (m : Machine σ μ ν) (speaker : Speaker) (o : Outcome α) : Machine σ μ ν :=
  { m with kernel := o.kernel, journal := m.journal.tell speaker o.events }

def tell (m : Machine σ μ ν) (speaker : Speaker) (event : Event) : Machine σ μ ν :=
  { m with journal := m.journal.tell speaker [event] }

def setPhase (m : Machine σ μ ν) (i : Nat) (p : Pid) (phase : Phase σ) : Machine σ μ ν :=
  { m with threads := m.threads.set i ⟨p, phase⟩ }

/-- A new thread for a process that was just created. -/
def launch (m : Machine σ μ ν) (p : Pid) (state : σ) : Machine σ μ ν :=
  { m with threads := m.threads ++ [⟨p, .starting state⟩] }

/-! ## Threads of processes -/

/-- The process ends and its thread is gone. -/
def exitThread (m : Machine σ μ ν) (i : Nat) (p : Pid) (code : ExitCode) : Machine σ μ ν :=
  let o := m.kernel.exit p code
  let m := (m.after (.process p) o).setPhase i p .gone
  match o.result with
  | .ok _ => m
  | .error fault => m.tell (.process p) (.exitFailed p fault)

/-- A body breaks off, which ends its process. -/
def crash (m : Machine σ μ ν) (i : Nat) (p : Pid) : Machine σ μ ν :=
  (m.tell (.process p) (.crashed p)).exitThread i p crashCode

/-- A body receives a reply and goes on. -/
def reply (prog : Program σ μ ν) (m : Machine σ μ ν) (i : Nat) (p : Pid) (state : σ)
    (reply : Reply) : Machine σ μ ν :=
  let heard := prog.hear p state reply
  { m.setPhase i p (.active heard.1) with notes := m.notes ++ heard.2 }

/-- A body hears how a step went, unless it breaks off. -/
def hear (prog : Program σ μ ν) (m : Machine σ μ ν) (i : Nat) (p : Pid) (state : σ) :
    Except Fault Answer → Machine σ μ ν
  | .ok answer => m.reply prog i p state (.ok answer)
  | .error (.refused why) => m.reply prog i p state (.error why)
  | .error _ => m.crash i p

/-- A body learns how its wait went, or stays asleep. -/
def hearWait (prog : Program σ μ ν) (m : Machine σ μ ν) (i : Nat) (p : Pid) (state : σ)
    (o : Outcome Waiting) : Machine σ μ ν :=
  let m := m.after (.process p) o
  match o.result with
  | .ok (.asleep w) => m.setPhase i p (.blocked state w)
  | .ok (.collected child code) => m.hear prog i p state (.ok (.collected (some (child, code))))
  | .error fault => m.hear prog i p state (.error fault)

/-- A change of status on the way of a thread; on refusal the body hears of it. -/
def shift (prog : Program σ μ ν) (m : Machine σ μ ν) (i : Nat) (p : Pid) (state : σ)
    (status : Status) (next : Option (Phase σ)) : Machine σ μ ν :=
  let o := m.kernel.transition p status
  let m := m.after (.process p) o
  match o.result, next with
  | .error fault, _ => m.hear prog i p state (.error fault)
  | .ok _, some phase => m.setPhase i p phase
  | .ok _, none => m.hear prog i p state (.ok .done)

/-- Does what a body asks for. -/
def grant (prog : Program σ μ ν) (m : Machine σ μ ν) (i : Nat) (p : Pid) (state : σ) :
    Ask σ → Machine σ μ ν
  | .self => m.hear prog i p state (.ok (.pid p))
  | .fork child =>
    let o := m.kernel.fork p
    let forked := m.after (.process p) o
    match o.result with
    | .error fault => forked.hear prog i p state (.error fault)
    | .ok q => (forked.launch q child).hear prog i p state (.ok (.pid q))
  | .wait target => m.hearWait prog i p state (m.kernel.wait p target)
  | .nap => m.shift prog i p state .sleeping (some (.napping state))
  | .yield => m.shift prog i p state .runnable (some (.pausing state))
  | .call request =>
    let o := m.kernel.serve request
    (m.after (.process p) o).hear prog i p state o.result

/-- A turn of the thread at an index, if it can move. -/
def stepThread (prog : Program σ μ ν) (m : Machine σ μ ν) (i : Nat) : Option (Machine σ μ ν) :=
  match m.threads[i]? with
  | none => none
  | some ⟨p, phase⟩ =>
    match phase with
    | .gone => none
    | .starting state =>
      let o := m.kernel.transition p .running
      let started := m.after (.process p) o
      match o.result with
      | .ok _ => some (started.setPhase i p (.active state))
      | .error fault => some ((started.setPhase i p .gone).tell (.process p) (.startFailed p fault))
    | .active state =>
      match prog.move p state with
      | .finish code => some (m.exitThread i p code)
      | .crash => some (m.crash i p)
      | .ask ask => some (m.grant prog i p state ask)
    | .napping state => some (m.shift prog i p state .runnable (some (.pausing state)))
    | .pausing state => some (m.shift prog i p state .running none)
    | .blocked state w =>
      if m.kernel.isWoken w then
        some (m.hearWait prog i p state (m.kernel.resume w.caller))
      else none

/-! ## The main thread -/

/-- The main thread receives a reply and goes on directing. -/
def direct (prog : Program σ μ ν) (m : Machine σ μ ν) (state : μ) (reply : Reply) :
    Machine σ μ ν :=
  let heard := prog.heed state reply
  { m with main := .directing heard.1, notes := m.notes ++ heard.2 }

/-- The main thread hears how a step went, unless the run ends with that. -/
def heed (prog : Program σ μ ν) (m : Machine σ μ ν) (state : μ) :
    Except Fault Answer → Machine σ μ ν
  | .ok answer => m.direct prog state (.ok answer)
  | .error (.refused why) => m.direct prog state (.error why)
  | .error fault => { m with main := .ended (.error (.fault fault)) }

/-- What the end of a wait for the adopter's children leads to. -/
def gather (m : Machine σ μ ν) (reaped : List (Pid × ExitCode)) (o : Outcome Waiting) :
    Machine σ μ ν :=
  let m := m.after .main o
  match o.result with
  | .ok (.asleep w) => { m with main := .blocked reaped w }
  | .ok (.collected p code) =>
    { m.tell .main (.released p code) with main := .collecting (reaped ++ [(p, code)]) }
  | .error (.refused .noChildren) => { m with main := .joining reaped }
  | .error fault => { m with main := .ended (.error (.fault fault)) }

/-- Checks the table when all is over. -/
def conclude (k : Kernel) (reaped : List (Pid × ExitCode)) : Verdict :=
  match k.table.audit with
  | some violation => .error (.breached violation)
  | none => if k.table.liveCount ≠ 1 then .error (.lost (k.table.liveCount - 1)) else .ok reaped

/-- A turn of the main thread, if it can move. -/
def stepMain (prog : Program σ μ ν) (m : Machine σ μ ν) : Option (Machine σ μ ν) :=
  match m.main with
  | .directing state =>
    match prog.lead state with
    | .finish => some { m with main := .collecting [] }
    | .fail failure => some { m with main := .ended (.error failure) }
    | .spawn parent child =>
      let o := m.kernel.create parent defaultImage
      let made := m.after .main o
      match o.result with
      | .error fault => some (made.heed prog state (.error fault))
      | .ok p => some ((made.launch p child).heed prog state (.ok (.pid p)))
    | .call request =>
      let o := m.kernel.serve request
      some ((m.after .main o).heed prog state o.result)
  | .collecting reaped => some (m.gather reaped (m.kernel.wait m.kernel.table.adopter .any))
  | .blocked reaped w =>
    if m.kernel.isWoken w then some (m.gather reaped (m.kernel.resume w.caller)) else none
  | .joining reaped =>
    if m.threads.all Thread.isGone then
      some { m with main := .ended (conclude m.kernel reaped) }
    else none
  | .ended _ => none

/-! ## Schedules -/

def step (prog : Program σ μ ν) (m : Machine σ μ ν) : Turn → Option (Machine σ μ ν)
  | .main => m.stepMain prog
  | .thread i => m.stepThread prog i

/-- Follows a schedule; turns of those who cannot move are passed over. -/
def follow (prog : Program σ μ ν) (m : Machine σ μ ν) (schedule : List Turn) : Machine σ μ ν :=
  schedule.foldl (fun m turn => (m.step prog turn).getD m) m

/-- What the run yielded, if it is over. -/
def verdict? (m : Machine σ μ ν) : Option Verdict :=
  match m.main with
  | .ended verdict => some verdict
  | _ => none

/-- Everybody's turn once, and whether anybody could move. -/
def pass (prog : Program σ μ ν) (m : Machine σ μ ν) : Machine σ μ ν × Bool :=
  (Turn.main :: (List.range m.threads.length).map Turn.thread).foldl
    (fun (m, moved) turn =>
      match m.step prog turn with
      | some m' => (m', true)
      | none => (m, moved))
    (m, false)

/-- Gives everybody a turn, over and over, until the run is over, nobody can move, or the given
number of passes is used up. -/
def run (prog : Program σ μ ν) : Nat → Machine σ μ ν → Machine σ μ ν
  | 0, m => m
  | passes + 1, m =>
    match m.verdict? with
    | some _ => m
    | none =>
      let passed := m.pass prog
      if passed.2 then run prog passes passed.1 else passed.1

/-- How many passes a run may take. -/
def patience : Nat := 100000

/-- What a run yields; a run that does not end has stalled. -/
def verdict (m : Machine σ μ ν) : Verdict := m.verdict?.getD (.error .stalled)

end Machine

end Lifecycle
