import Lifecycle.Memory.Address
import Lifecycle.Task.Pid
import Lifecycle.Task.Status
/-!
# Refusals and faults

A call is refused for a stated cause and leaves things as they were. A fault is graver: a broken
precondition or a step that the arithmetic or the memory of the machine does not allow. Each cause
has one text.
-/

namespace Lifecycle

/-- What is wrong with a program image. -/
inductive ImageDefect where
  | shortFile
  | badMagic
  | badClass
  | smallEntry
  | misaligned
  | tableOutside
  | noTable
  | badKind
  | segmentOverflow
  | segmentOutside
  /-- A defect stated in words. -/
  | worded (text : String)
deriving DecidableEq

def ImageDefect.text : ImageDefect → String
  | shortFile => "File is shorter than the first ELF header part"
  | badMagic => "Did not find ELF magic number"
  | badClass => "Invalid ELF class"
  | smallEntry => "program header entry too small"
  | misaligned => "program headers misaligned"
  | tableOutside => "program headers out of bounds"
  | noTable => "There are no program headers in this file"
  | badKind => "Invalid type"
  | segmentOverflow => "segment data overflows"
  | segmentOutside => "segment data out of bounds"
  | worded text => text

/-- What is wrong with a configuration. -/
inductive ConfigDefect where
  | noRoom
  /-- A defect stated in words. -/
  | worded (text : String)
deriving DecidableEq

def ConfigDefect.text : ConfigDefect → String
  | noRoom => "capacity must leave room for the adopter"
  | worded text => text

/-- Why a call was refused. -/
inductive Refusal where
  /-- Every slot is in use. -/
  | tableFull
  /-- The process is not in a status that allows the call. -/
  | badStatus (pid : Pid) (status : Status)
  /-- The caller has no child that matches. -/
  | noChildren
  /-- A mapping reaches past the address limit. -/
  | outOfRange (addr : Addr)
  | noProcess (pid : Pid)
  /-- The process was torn down. -/
  | killed
  | alreadyMapped (page : Page)
  | badImage (defect : ImageDefect)
  | badConfig (defect : ConfigDefect)
deriving DecidableEq

def Refusal.text : Refusal → String
  | tableFull => "process table is full"
  | badStatus pid status => "pid " ++ pid.text ++ " is in state " ++ status.text
  | noChildren => "no children to wait for"
  | outOfRange addr => addr.text ++ " is beyond MAXVA"
  | noProcess pid => "no process with pid " ++ pid.text
  | killed => "process was killed"
  | alreadyMapped page => page.text ++ " is already mapped"
  | badImage defect => "bad elf: " ++ defect.text
  | badConfig defect => "invalid config: " ++ defect.text

/-- Why a call gave no answer. -/
inductive Fault where
  | refused (why : Refusal)
  /-- The adopter must not end. -/
  | adopterExit (pid : Pid) (code : ExitCode)
  /-- A range that ends before it starts. -/
  | backwards (lo hi : Page)
  /-- A read past the end of the data. -/
  | outOfBounds
  /-- A sum or difference that does not fit its word. -/
  | overflow
  /-- The table contradicts itself. -/
  | corrupt
deriving DecidableEq

def Fault.text : Fault → String
  | refused why => why.text
  | adopterExit pid code =>
    "[kernel] init process (pid " ++ pid.text ++ ") exited with code " ++ exitText code
  | backwards lo hi => "start " ++ lo.text ++ " > end " ++ hi.text ++ "!"
  | outOfBounds => "index out of bounds"
  | overflow => "arithmetic overflow"
  | corrupt => "process table is corrupt"

end Lifecycle
