import Lifecycle.Failure
import Lifecycle.Kernel.Request
/-!
# Programs

What processes do, as state machines. In each of its states a process body ends, crashes, or asks
for something; the answer determines its next state and may leave notes for whoever runs the
program. The main thread first directs the run in the same manner and then collects for the adopter.
-/

namespace Lifecycle

/-- What a process that crashes ends with. -/
def crashCode : ExitCode := -2

/-- The text and data of every process that the main thread starts. -/
def defaultImage : List Region := [
  ⟨⟨0x1000⟩, ⟨0x3000⟩, ⟨true, false, true, true⟩⟩,
  ⟨⟨0x3000⟩, ⟨0x4000⟩, ⟨true, true, false, true⟩⟩]

/-- What a process asks for on its own behalf. -/
inductive Ask (σ : Type) where
  /-- Its own identity. -/
  | self
  /-- A child with a copy of its address space that starts in a given state. -/
  | fork (child : σ)
  | wait (target : Target)
  /-- A sleep of some length. -/
  | nap
  /-- To give way to others. -/
  | yield
  /-- A step of the kernel. -/
  | call (request : Request)

/-- What a process body does next. -/
inductive Move (σ : Type) where
  | finish (code : ExitCode)
  | crash
  | ask (ask : Ask σ)

/-- What the main thread does next. -/
inductive Lead (σ : Type) where
  /-- Goes on to collect for the adopter. -/
  | finish
  /-- Ends the run. -/
  | fail (failure : Failure)
  /-- Starts a process with the default image. -/
  | spawn (parent : Pid) (child : σ)
  | call (request : Request)

/-- What comes back. Only a refusal is heard of; a graver fault ends whoever caused it. -/
abbrev Reply := Except Refusal Answer

/-- Process bodies with states `σ`, a main thread with states `μ`, and notes `ν`. -/
structure Program (σ μ ν : Type) where
  move : Pid → σ → Move σ
  hear : Pid → σ → Reply → σ × List ν
  lead : μ → Lead σ
  heed : μ → Reply → μ × List ν

end Lifecycle
