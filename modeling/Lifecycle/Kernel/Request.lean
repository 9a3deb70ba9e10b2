import Lifecycle.Kernel.Collect
import Lifecycle.Kernel.Create
import Lifecycle.Kernel.Exit
/-!
# Requests

All that can be asked of a kernel in one step, and the answers. A blocking wait takes more than one
step and is no request.
-/

namespace Lifecycle

/-- A single step that a kernel can be asked to make. -/
inductive Request where
  | allocate (parent : Pid)
  | activate (pid : Pid) (space : AddressSpace)
  | activateRegions (pid : Pid) (regions : List Region)
  | create (parent : Pid) (regions : List Region)
  | spawn (parent : Pid) (image : Bytes)
  | fork (parent : Pid)
  | exec (pid : Pid) (image : Bytes)
  | transition (pid : Pid) (next : Status)
  | exit (pid : Pid) (code : ExitCode)
  | kill (pid : Pid)
  | tryWait (parent : Pid) (target : Target)
  | reap (parent child : Pid)
  | children (pid : Pid)
  | status (pid : Pid)
  | parent (pid : Pid)
  | exitCode (pid : Pid)
  | profile (pid : Pid)
  | memory (pid : Pid)
  | pages (pid : Pid)
  | maps (pid : Pid) (page : Page)
  | liveCount
  | capacity
  | adopter
  | profiles

/-- What a kernel answers. -/
inductive Answer where
  | done
  | pid (p : Pid)
  | started (start : Elf.Start)
  | collected (child : Option (Pid × ExitCode))
  | code (code : ExitCode)
  | pids (ps : List Pid)
  | status (status : Option Status)
  | parent (parent : Option Pid)
  | exitCode (code : Option ExitCode)
  | profile (profile : Option Profile)
  | memory (areas : Option (List Area))
  | pages (count : Option Nat)
  | maps (held : Option Bool)
  | count (n : Nat)
  | profiles (ps : List Profile)

namespace Kernel

/-- Serves a request. -/
def serve (k : Kernel) : Request → Outcome Answer
  | .allocate parent => (k.allocate parent).map .pid
  | .activate p space => (k.activate p space).map fun _ => .done
  | .activateRegions p regions => (k.activateRegions p regions).map fun _ => .done
  | .create parent regions => (k.create parent regions).map .pid
  | .spawn parent image => (k.spawn parent image).map .pid
  | .fork parent => (k.fork parent).map .pid
  | .exec p image => (k.exec p image).map .started
  | .transition p next => (k.transition p next).map fun _ => .done
  | .exit p code => (k.exit p code).map fun _ => .done
  | .kill p => (k.kill p).map fun _ => .done
  | .tryWait parent target => (k.tryWait parent target).map .collected
  | .reap parent child => (k.reap parent child).map .code
  | .children p => k.answer (.pids (k.table.children p))
  | .status p => k.answer (.status (k.table.status? p))
  | .parent p => k.answer (.parent (k.table.parent? p))
  | .exitCode p => k.answer (.exitCode (k.table.exitCode? p))
  | .profile p => k.answer (.profile (k.table.profile? p))
  | .memory p => k.answer (.memory ((k.table.space? p).map (·.areas)))
  | .pages p => k.answer (.pages ((k.table.space? p).map (·.pageCount)))
  | .maps p page => k.answer (.maps ((k.table.space? p).map (·.maps page)))
  | .liveCount => k.answer (.count k.table.liveCount)
  | .capacity => k.answer (.count k.table.capacity)
  | .adopter => k.answer (.pid k.table.adopter)
  | .profiles => k.answer (.profiles k.table.profiles)

end Kernel

end Lifecycle
