import Lifecycle.Log.Level
import Lifecycle.Memory.Space
/-!
# The journal

Everything worth telling is an event; its level and its text are functions of it. Who speaks is kept
beside the event, as each process has a thread of its own.
-/

namespace Lifecycle

/-- Something that happened. -/
inductive Event where
  | booted (capacity : Nat) (adopter : Pid)
  | mapped (area : Area)
  | allocated (pid : Pid) (slot : Nat) (parent : Pid)
  | moved (pid : Pid) (before after : Status)
  /-- A process ended while callers were blocked on its behalf. -/
  | endedBlocked (pid : Pid) (before : Status)
  | created (pid parent : Pid) (pages : Nat)
  | rejected (parent : Pid) (why : Refusal)
  | forked (parent pid : Pid)
  | replaced (pid : Pid) (entry stackTop : Addr)
  | adopted (pid adopter former : Pid)
  | exited (pid : Pid) (code : ExitCode) (pages orphans : Nat) (adopter : Pid)
  | killed (pid : Pid)
  | blocked (pid : Pid)
  | reaped (parent pid : Pid) (code : ExitCode)
  /-- The adopter's collecting loop got hold of a process. -/
  | released (pid : Pid) (code : ExitCode)
  | crashed (pid : Pid)
  | startFailed (pid : Pid) (why : Fault)
  | exitFailed (pid : Pid) (why : Fault)
  /-- One round of random operations. -/
  | round (number : Nat) (actor : Pid) (op : Nat)
  | refilled (filled : Nat) (recovered : Pid)
  | reported (text : String)
  | failed (text : String)
deriving DecidableEq

namespace Event

def level : Event → Level
  | booted .. | exited .. | reaped .. | released .. | refilled .. | reported .. => .info
  | killed .. | rejected .. => .warn
  | allocated .. | created .. | forked .. | replaced .. | round .. => .debug
  | mapped .. | moved .. | endedBlocked .. | adopted .. | blocked .. => .trace
  | crashed .. | startFailed .. | exitFailed .. | failed .. => .error

/-- The message of an event. A stack pointer of the host is not modelled and stands as `SP`. -/
def text : Event → String
  | booted capacity adopter =>
    s!"[kernel] process table: {capacity} slots, init pid {adopter.text}, boot sp SP"
  | mapped area =>
    s!"map [{area.range.lo.text}, {area.range.hi.text}) {area.access.text}"
  | allocated pid slot parent => s!"allocated pid {pid.text} in slot {slot} (parent {parent.text})"
  | moved pid before after => s!"pid {pid.text}: {before.text} -> {after.text}"
  | endedBlocked pid before => s!"pid {pid.text}: {before.text} -> Zombie while blocked in wait"
  | created pid parent pages =>
    s!"created pid {pid.text} under pid {parent.text} with {pages} pages"
  | rejected parent why => s!"pid {parent.text}: rejected creation request: {why.text}"
  | forked parent pid => s!"pid {parent.text} forked pid {pid.text}"
  | replaced pid entry stackTop =>
    s!"pid {pid.text} exec: entry {hex entry.word.toNat}, sp {hex stackTop.word.toNat}"
  | adopted pid adopter former =>
    s!"pid {pid.text} adopted by pid {adopter.text} (was {former.text})"
  | exited pid code pages orphans adopter =>
    s!"[kernel] pid {pid.text} exited with code {exitText code} ({pages} pages released, " ++
      s!"{orphans} children adopted by pid {adopter.text})"
  | killed pid => s!"[kernel] pid {pid.text} killed"
  | blocked pid => s!"pid {pid.text} blocked in wait"
  | reaped parent pid code =>
    s!"[kernel] pid {parent.text} reaped pid {pid.text}, exit_code={exitText code}"
  | released pid code =>
    s!"[initproc] Released a zombie process, pid={pid.text}, exit_code={exitText code}"
  | crashed pid => s!"[kernel] pid {pid.text} panicked, core dumped."
  | startFailed pid why => s!"pid {pid.text} cannot start: {why.text}"
  | exitFailed pid why => s!"pid {pid.text} cannot exit: {why.text}"
  | round number actor op => s!"round {number}: pid {actor.text} op {op}"
  | refilled filled recovered =>
    s!"table full at {filled} processes, pid {recovered.text} created after one reap"
  | reported text => text
  | failed text => text

end Event

/-- Whose thread speaks. -/
inductive Speaker where
  | main
  | process (pid : Pid)
deriving DecidableEq

def Speaker.text : Speaker → String
  | main => "main"
  | process pid => "pid" ++ pid.text

/-- An event and who tells it. -/
structure Entry where
  speaker : Speaker
  event : Event
deriving DecidableEq

/-- A log line for a terminal, given the time stamp. -/
def Entry.line (e : Entry) (stamp : String) : String :=
  let level := e.event.level
  let padded := "".pushn ' ' (5 - level.text.length) ++ level.text
  "\x1b[" ++ toString level.colour ++ "m[" ++ padded ++ "][" ++ e.speaker.text ++ "][" ++ stamp ++
    "] " ++ e.event.text ++ "\x1b[0m"

/-- What has been told so far. -/
abbrev Journal := Array Entry

def Journal.tell (j : Journal) (speaker : Speaker) (events : List Event) : Journal :=
  events.foldl (fun j e => j.push ⟨speaker, e⟩) j

/-- The terminal lines that a filter lets through. -/
def Journal.lines (j : Journal) (filter : Filter) (stamp : String) : List String :=
  (j.toList.filter fun e => filter.admits e.event.level).map fun e => e.line stamp

end Lifecycle
