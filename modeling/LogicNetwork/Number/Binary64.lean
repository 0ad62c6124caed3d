/-
  Binary64 — the doubles as exact numbers.

  Weights, costs and probabilities are doubles. Their texts are decided by exact arithmetic
  on the number a double stands for, so this module reads the bit pattern once: a finite
  double is a sign and a magnitude `significand * 2 ^ exponent`, and `Dyadic` is that
  magnitude. Everything above works on these two integers; nothing above looks at bits.
-/

namespace LogicNetwork

/-! ### Magnitudes -/

/-- The number `significand * 2 ^ exponent`. -/
structure Dyadic where
  significand : Nat
  exponent : Int
deriving DecidableEq, Repr, Inhabited

/-- A nonnegative ratio of naturals, kept as it comes and never reduced. -/
structure Ratio where
  numerator : Nat
  denominator : Nat
deriving DecidableEq, Repr, Inhabited

/-- The ratio times a power of ten; the power may be negative. -/
def Ratio.timesTen (r : Ratio) (power : Int) : Ratio :=
  if power < 0 then ⟨r.numerator, r.denominator * Nat.pow 10 power.natAbs⟩
  else ⟨r.numerator * Nat.pow 10 power.natAbs, r.denominator⟩

/-- The dyadic number as a ratio. -/
def Dyadic.toRatio (d : Dyadic) : Ratio :=
  if d.exponent < 0 then ⟨d.significand, Nat.pow 2 d.exponent.natAbs⟩
  else ⟨d.significand * Nat.pow 2 d.exponent.natAbs, 1⟩

/-- The nearest natural to a ratio; a half goes to the even neighbour. -/
def Ratio.roundHalfEven (r : Ratio) : Nat :=
  let quotient := r.numerator / r.denominator
  let twice := 2 * (r.numerator % r.denominator)
  if twice < r.denominator then quotient
  else if r.denominator < twice then quotient + 1
  else quotient + quotient % 2

/-! ### Doubles -/

/-- What a double stands for. -/
inductive Binary64
  /-- No number. -/
  | nan
  /-- One of the two infinities. -/
  | infinite (negative : Bool)
  /-- A signed magnitude; zero has both signs. -/
  | finite (negative : Bool) (magnitude : Dyadic)
deriving DecidableEq, Repr, Inhabited

/-- Reads the sign, the eleven exponent bits and the fifty-two fraction bits. -/
def Binary64.ofBits (bits : Nat) : Binary64 :=
  let negative := decide ((bits >>> 63) % 2 = 1)
  let biased : Nat := (bits >>> 52) % 2048
  let fraction : Nat := bits % 4503599627370496
  if biased = 2047 then
    if fraction = 0 then .infinite negative else .nan
  else if biased = 0 then .finite negative ⟨fraction, -1074⟩
  else .finite negative ⟨4503599627370496 + fraction, (biased : Int) - 1075⟩

/-- The exact reading of a double. -/
def Binary64.ofFloat (x : Float) : Binary64 :=
  ofBits x.toBits.toNat

end LogicNetwork
