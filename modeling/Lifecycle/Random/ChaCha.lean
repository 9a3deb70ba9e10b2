import Lifecycle.Random.Dice
/-!
# A stream of random words

The words of the ChaCha stream cipher with twelve rounds, a 64-bit block counter and no nonce, keyed
by spreading a 64-bit seed over eight words. Numbers below a bound are drawn by multiplication: a
word times the bound, of which the high half is the number, unless the low half falls into the part
that would favour some numbers.
-/

namespace Lifecycle

namespace ChaCha

def rotateLeft (x : UInt32) (n : UInt32) : UInt32 := (x <<< n) ||| (x >>> (32 - n))

def rotateRight (x : UInt32) (n : UInt32) : UInt32 := (x >>> n) ||| (x <<< ((32 - n) % 32))

/-- Mixes four words of the state. -/
def quarter (a b c d : Nat) (s : Array UInt32) : Array UInt32 :=
  let mix (x y z : Nat) (n : UInt32) (s : Array UInt32) : Array UInt32 :=
    let sum := s.getD x 0 + s.getD y 0
    (s.setIfInBounds x sum).setIfInBounds z (rotateLeft (s.getD z 0 ^^^ sum) n)
  mix c d b 7 (mix a b d 8 (mix c d b 12 (mix a b d 16 s)))

/-- A column round and a diagonal round. -/
def doubleRound (s : Array UInt32) : Array UInt32 :=
  let columns := quarter 3 7 11 15 (quarter 2 6 10 14 (quarter 1 5 9 13 (quarter 0 4 8 12 s)))
  quarter 3 4 9 14 (quarter 2 7 8 13 (quarter 1 6 11 12 (quarter 0 5 10 15 columns)))

/-- The words that every block starts with. -/
def constants : Array UInt32 := #[0x61707865, 0x3320646e, 0x79622d32, 0x6b206574]

/-- The block of a key at a counter. -/
def block (key : Array UInt32) (counter : UInt64) : List UInt32 :=
  let input := constants ++ key ++ #[counter.toUInt32, (counter >>> 32).toUInt32, 0, 0]
  let mixed := Nat.repeat doubleRound 6 input
  (mixed.zipWith (· + ·) input).toList

/-- A position in the stream: the words left of the current block and the number of the next one. -/
structure Stream where
  key : Array UInt32
  left : List UInt32
  counter : UInt64

/-- One step of the generator that spreads a seed, and the word that it yields. -/
def spread (state : UInt64) : UInt32 × UInt64 :=
  let next := state * 6364136223846793005 + 11634580027462260723
  let word := (((next >>> 18) ^^^ next) >>> 27).toUInt32
  (rotateRight word (next >>> 59).toUInt32, next)

/-- Some words spread from a seed. -/
def spreadKey : Nat → UInt64 → List UInt32
  | 0, _ => []
  | n + 1, state => (spread state).1 :: spreadKey n (spread state).2

namespace Stream

def ofSeed (seed : UInt64) : Stream := ⟨(spreadKey 8 seed).toArray, [], 0⟩

def word32 (s : Stream) : UInt32 × Stream :=
  match s.left with
  | w :: rest => (w, { s with left := rest })
  | [] =>
    let words := block s.key s.counter
    (words.headD 0, { s with left := words.tail, counter := s.counter + 1 })

/-- Two words, the low one first. -/
def word64 (s : Stream) : UInt64 × Stream :=
  let (low, s) := s.word32
  let (high, s) := s.word32
  (low.toUInt64 ||| (high.toUInt64 <<< 32), s)

/-- The largest low half that is accepted for a bound. -/
def zone (n : Nat) : Nat := (n <<< (31 - n.log2)) - 1

/-- Draws a number below a bound; after as many rejections as allowed the next word is taken as it
is. -/
def sample (n : Nat) : Nat → Stream → Nat × Stream
  | 0, s => (s.word32.1.toNat * n / UInt32.size, s.word32.2)
  | tries + 1, s =>
    let (w, s) := s.word32
    let product := w.toNat * n
    if product % UInt32.size ≤ zone n then (product / UInt32.size, s) else sample n tries s

end Stream

/-- Dice thrown with the words of the stream. -/
def dice : Dice Stream where
  start := Stream.ofSeed
  below n s := s.sample n 1000
  flip s := ((s.word64.1 < 0x8000000000000000 : Bool), s.word64.2)
  seed := Stream.word64

end ChaCha

end Lifecycle
