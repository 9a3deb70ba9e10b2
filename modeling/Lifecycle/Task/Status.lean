/-!
# The status of a process

A slot of the process table is unused, being set up, ready, running, asleep, or holds what a
finished process leaves behind until its parent collects it.
-/

namespace Lifecycle

/-- The stage of its life a process is in. -/
inductive Status where
  | unused
  | used
  | runnable
  | running
  | sleeping
  | zombie
deriving DecidableEq, Inhabited

namespace Status

def all : List Status := [unused, used, runnable, running, sleeping, zombie]

/-- The steps that the life of a process consists of. -/
def canBecome : Status → Status → Bool
  | unused, used | used, runnable | runnable, running | running, runnable
  | running, sleeping | sleeping, runnable | running, zombie | zombie, unused => true
  | _, _ => false

/-- Created and not yet ended. -/
def isAlive : Status → Bool
  | runnable | running | sleeping => true
  | unused | used | zombie => false

def text : Status → String
  | unused => "Unused"
  | used => "Used"
  | runnable => "Runnable"
  | running => "Running"
  | sleeping => "Sleeping"
  | zombie => "Zombie"

end Status

end Lifecycle
