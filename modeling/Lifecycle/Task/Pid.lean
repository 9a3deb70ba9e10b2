/-!
# Process identities

Identities are numbers handed out by a pool. A returned number is handed out again before any
fresh one, the last returned first. The adopter's own number is reserved and never handed out.
-/

namespace Lifecycle

/-- The identity of a process. -/
structure Pid where
  number : Nat
deriving DecidableEq, Inhabited

def Pid.text (p : Pid) : String := toString p.number

/-- The code a process ends with. -/
abbrev ExitCode := Int32

def exitText (code : ExitCode) : String := toString code.toInt

/-- Identities not in use: every number from `next` on, and the returned ones, latest first. -/
structure PidPool where
  next : Nat
  returned : List Pid
  reserved : Pid
deriving DecidableEq

namespace PidPool

def fresh (reserved : Pid) : PidPool := ⟨0, [], reserved⟩

/-- Hands out the latest returned identity, else the next number that is not reserved. -/
def issue (pool : PidPool) : Pid × PidPool :=
  match pool.returned with
  | p :: rest => (p, { pool with returned := rest })
  | [] =>
    let n := if ⟨pool.next⟩ = pool.reserved then pool.next + 1 else pool.next
    (⟨n⟩, { pool with next := n + 1 })

/-- Takes an identity back. Refuses one that was never handed out, the reserved one, and one that
has been returned already. -/
def release? (pool : PidPool) (p : Pid) : Option PidPool :=
  if p.number < pool.next ∧ p ≠ pool.reserved ∧ p ∉ pool.returned then
    some { pool with returned := p :: pool.returned }
  else none

end PidPool

end Lifecycle
