import Lifecycle.Kernel.Session
/-!
# Reachable sessions

What can happen to a session, one event at a time: a request, a caller that enters a wait, or the
end of a caller's sleep. A woken caller may be kept waiting while others act, and a sleep may end
although nobody caused that. A session is reachable if some course of events leads to it from the
setting up of its table.
-/

namespace Lifecycle

/-- Something that happens to a session. -/
inductive Act where
  | serve (request : Request)
  | wait (parent : Pid) (target : Target)
  /-- The sleep of the caller at an index of the list ends. -/
  | rouse (index : Nat)

namespace Session

def act (s : Session) : Act → Session
  | .serve request => (s.serve request).1
  | .wait parent target => (s.wait parent target).1
  | .rouse i => (s.rouse i).1

/-- The session after some events, in order. -/
def follow (s : Session) (acts : List Act) : Session := acts.foldl act s

/-- Sessions that come about on a table of a given configuration. -/
inductive Reachable (config : Config) : Session → Prop
  | boot {k : Kernel} (h : Kernel.boot config = .ok k) : Reachable config (.start k)
  | act {s : Session} (a : Act) (h : Reachable config s) : Reachable config (s.act a)

theorem Reachable.follow {config : Config} {s : Session} (h : Reachable config s)
    (acts : List Act) : Reachable config (s.follow acts) := by
  induction acts generalizing s with
  | nil => exact h
  | cons a rest ih => exact ih (h.act a)

end Session

end Lifecycle
