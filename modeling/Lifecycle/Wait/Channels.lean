/-!
# Wait channels

Each channel counts its wakes. A ticket is the count at the time it is taken, as a 64-bit word, so a
sleeper knows it has been woken when the count has moved past its ticket.
-/

namespace Lifecycle

/-- What a sleeper remembers of its channel. -/
abbrev Ticket := UInt64

/-- How often each channel has been woken. -/
structure Channels where
  wakes : List Nat
deriving DecidableEq

namespace Channels

def silent (n : Nat) : Channels := ⟨List.replicate n 0⟩

def ticket (c : Channels) (i : Nat) : Ticket := UInt64.ofNat (c.wakes.getD i 0)

def wake (c : Channels) (i : Nat) : Channels := ⟨c.wakes.modify i (· + 1)⟩

end Channels

end Lifecycle
