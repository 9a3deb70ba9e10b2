/-!
# Dice

What a random procedure may ask for. Procedures are written over any dice, so that what holds of
them holds whatever is thrown.
-/

namespace Lifecycle

/-- A source of random choices with states `γ`. -/
structure Dice (γ : Type) where
  /-- The state that belongs to a seed. -/
  start : UInt64 → γ
  /-- A number below a bound. -/
  below : Nat → γ → Nat × γ
  flip : γ → Bool × γ
  /-- A seed for other dice. -/
  seed : γ → UInt64 × γ

end Lifecycle
