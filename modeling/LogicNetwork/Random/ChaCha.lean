/-
  ChaCha — the seeded generator.

  The words of the ChaCha stream cipher with twelve rounds, a 64-bit block counter from zero
  and no nonce, taken two at a time as 64-bit words, the first one low. The 256-bit key is
  drawn from a 64-bit seed by a permuted congruential generator. Runs with the same seed are
  the same run.
-/
import LogicNetwork.Random.Source

namespace LogicNetwork

/-! ### The key of a seed -/

/-- One step of the generator that keys are drawn from: its next state and its output. -/
def seedStep (s : UInt64) : UInt64 × UInt32 :=
  let s := s * 6364136223846793005 + 11634580027462260723
  let x := (((s >>> 18) ^^^ s) >>> 27).toUInt32
  let rotation := (s >>> 59).toUInt32
  (s, (x >>> rotation) ||| (x <<< ((32 - rotation) % 32)))

/-- The first outputs from a seed. -/
def seedWords : Nat → UInt64 → List UInt32
  | 0, _ => []
  | n + 1, s =>
    let (s, word) := seedStep s
    word :: seedWords n s

/-! ### Blocks -/

/-- A word rotated to the left. -/
def rotateLeft (x : UInt32) (n : UInt32) : UInt32 :=
  (x <<< n) ||| (x >>> (32 - n))

/-- A quarter round on four places of a block. -/
def quarterRound (v : Vector UInt32 16) (a b c d : Fin 16) : Vector UInt32 16 :=
  let v := v.set a (v[a] + v[b])
  let v := v.set d (rotateLeft (v[d] ^^^ v[a]) 16)
  let v := v.set c (v[c] + v[d])
  let v := v.set b (rotateLeft (v[b] ^^^ v[c]) 12)
  let v := v.set a (v[a] + v[b])
  let v := v.set d (rotateLeft (v[d] ^^^ v[a]) 8)
  let v := v.set c (v[c] + v[d])
  v.set b (rotateLeft (v[b] ^^^ v[c]) 7)

/-- Four quarter rounds on the columns and four on the diagonals. -/
def doubleRound (v : Vector UInt32 16) : Vector UInt32 16 :=
  let v := quarterRound v 0 4 8 12
  let v := quarterRound v 1 5 9 13
  let v := quarterRound v 2 6 10 14
  let v := quarterRound v 3 7 11 15
  let v := quarterRound v 0 5 10 15
  let v := quarterRound v 1 6 11 12
  let v := quarterRound v 2 7 8 13
  quarterRound v 3 4 9 14

/-- A function applied a number of times. -/
def applyTimes {β : Type} (f : β → β) : Nat → β → β
  | 0, x => x
  | n + 1, x => applyTimes f n (f x)

/-- The words that a block starts from: four constants, the key, the counter, and zeros. -/
def initialBlock (key : Vector UInt32 8) (counter : UInt64) : Vector UInt32 16 :=
  let constants : Vector UInt32 4 := #v[0x61707865, 0x3320646e, 0x79622d32, 0x6b206574]
  let counters : Vector UInt32 4 := #v[counter.toUInt32, (counter >>> 32).toUInt32, 0, 0]
  constants ++ key ++ counters

/-- The words of a block: six double rounds, added to what it started from. -/
def chachaBlock (key : Vector UInt32 8) (counter : UInt64) : Vector UInt32 16 :=
  let start := initialBlock key counter
  Vector.zipWith (· + ·) (applyTimes doubleRound 6 start) start

/-- Two words at a time as one, the first one low. -/
def pairWords : List UInt32 → List UInt64
  | low :: high :: rest => (low.toUInt64 ||| (high.toUInt64 <<< 32)) :: pairWords rest
  | _ => []

/-! ### The generator -/

/-- A key, the number of the next block, and the words of the last block not yet drawn. -/
structure ChaCha where
  key : Vector UInt32 8
  counter : UInt64
  pending : List UInt64

namespace ChaCha

/-- The generator of a seed. -/
def ofSeed (seed : UInt64) : ChaCha where
  key := Vector.ofFn fun i => (seedWords 8 seed).getD i 0
  counter := 0
  pending := []

/-- Draws the next word. -/
def next (g : ChaCha) : UInt64 × ChaCha :=
  match g.pending with
  | word :: rest => (word, { g with pending := rest })
  | [] =>
    match pairWords (chachaBlock g.key g.counter).toList with
    | word :: rest => (word, { g with counter := g.counter + 1, pending := rest })
    | [] => (0, g)

/-- Whether an event happens: certain ones without a draw, others if the word drawn is below the
probability in units of `2 ^ -64`. -/
def happens (chance : Float) (g : ChaCha) : Bool × ChaCha :=
  if chance == 1 then (true, g)
  else
    let (word, g) := g.next
    (decide (word < (chance * 18446744073709551616).toUInt64), g)

/-- The number of bits above the leading one of a nonzero 64-bit number. -/
def leadingZeros (n : Nat) : Nat :=
  63 - n.log2

/-- One of `n` things: the upper word of the product of `n` and a word drawn. A word whose lower
product word lies beyond the last full range is drawn again, at most `attempts` times. -/
def belowWithin (n : Nat) (pos : 0 < n) : Nat → ChaCha → Fin n × ChaCha
  | attempts, g =>
    let (word, g) := g.next
    let product := word.toNat * n
    have inside : product / 18446744073709551616 < n := by
      refine Nat.div_lt_of_lt_mul ?_
      exact Nat.mul_lt_mul_of_lt_of_le word.toNat_lt (Nat.le_refl n) pos
    let upper : Fin n := ⟨product / 18446744073709551616, inside⟩
    match attempts with
    | 0 => (upper, g)
    | attempts + 1 =>
      if product % 18446744073709551616 < n <<< leadingZeros n then (upper, g)
      else belowWithin n pos attempts g

/-- One of `n` things, each with the same probability. -/
def below (n : Nat) (pos : 0 < n) (g : ChaCha) : Fin n × ChaCha :=
  belowWithin n pos 4096 g

instance : RandomSource ChaCha where
  happens := happens
  below := below

end ChaCha

end LogicNetwork
