/-
  Reading — numbers from their decimal texts.

  `toFloat` gives the double nearest to `digits * 10 ^ exponent`, infinite beyond the range
  and zero below it. `toFloatInSteps` is the quick way from a decimal of at most 64 bits: one
  rounding for the digits and one for each power of ten, so that its result may be off by a
  unit in the last place. `integer?` reads the whole numbers of a bounded range: one optional
  sign and ASCII digits, nothing else. `float?` reads the decimal notation of command lines:
  a sign, digits around an optional point, an optional exponent, or a name.
-/
import LogicNetwork.Number.Shortest

namespace LogicNetwork

/-! ### Decimals to doubles -/

/-- The double nearest to a decimal. The two comparisons keep powers of ten small: above
`10 ^ 310` all is infinite, below `10 ^ -330` all is zero. -/
def Decimal.toFloat (d : Decimal) : Float :=
  let size := d.exponent + Decimal.width d.digits
  if d.digits = 0 then 0
  else if 310 < size then 1 / 0
  else if size < -330 then 0
  else if d.exponent < 0 then Float.ofScientific d.digits true d.exponent.natAbs
  else Float.ofScientific d.digits false d.exponent.natAbs

/-- A signed decimal as a double; zero keeps its sign. -/
def Decimal.toSignedFloat (negative : Bool) (d : Decimal) : Float :=
  if negative then -d.toFloat else d.toFloat

/-! ### Digits -/

/-- The value of one decimal digit. -/
def digit? (c : Char) : Option Nat :=
  if '0' ≤ c ∧ c ≤ '9' then some (c.toNat - '0'.toNat) else none

/-- Whether a character is one of the ten ASCII digits. -/
def isDigit (c : Char) : Bool :=
  (digit? c).isSome

/-- The number that digits write, most significant first; other characters count as zero. -/
def digitsValue (cs : List Char) : Nat :=
  cs.foldl (fun n c => 10 * n + (digit? c).getD 0) 0

/-- One more than the greatest 64-bit word. -/
def wordBound : Nat := 18446744073709551616

/-- Takes digits into a 64-bit word, up to the first that it cannot hold; the word and the digits
that are left. -/
def absorbDigits : Nat → List Char → Nat × List Char
  | n, [] => (n, [])
  | n, c :: rest =>
    let next := 10 * n + (digit? c).getD 0
    if next < wordBound then absorbDigits next rest else (n, c :: rest)

/-- The decimal of the digits before and after a point. Its digits are the leading ones that a word
holds; of those left over, the ones before the point still count as places. -/
def Decimal.ofDigits (whole fraction : List Char) (exponent : Int) : Decimal :=
  let (n, skipped) := absorbDigits 0 whole
  let (n, dropped) := absorbDigits n fraction
  ⟨n, exponent + skipped.length + dropped.length - fraction.length⟩

/-! ### Rounding in steps -/

/-- The greatest power of ten among the doubles. -/
def greatestPower : Nat := 308

/-- The double nearest to a power of ten. -/
def powerOfTen (e : Nat) : Float :=
  Decimal.toFloat ⟨1, e⟩

/-- Divides by a power of ten, by its greatest part that is a double first. -/
def divideByPower (x : Float) (e : Nat) : Float :=
  if e ≤ greatestPower then x / powerOfTen e
  else if x == 0 then x
  else divideByPower (x / powerOfTen greatestPower) (e - greatestPower)
termination_by e
decreasing_by simp only [greatestPower] at *; omega

/-- The double that comes of rounding the digits first and the product or quotient with a power of
ten then. -/
def Decimal.toFloatInSteps (d : Decimal) : Float :=
  let x := Decimal.toFloat ⟨d.digits, 0⟩
  if d.exponent < 0 then divideByPower x d.exponent.natAbs
  else if d.exponent ≤ greatestPower then x * powerOfTen d.exponent.natAbs
  else if x == 0 then x
  else 1 / 0

/-- A nonempty run of digits as a number. -/
def natural? (cs : List Char) : Option Nat :=
  if cs.isEmpty || !cs.all isDigit then none else some (digitsValue cs)

/-! ### Whole numbers -/

/-- One optional sign and digits. -/
def signedNatural? : List Char → Option Int
  | '+' :: rest => (natural? rest).map Int.ofNat
  | '-' :: rest => (natural? rest).map fun n => -(n : Int)
  | cs => (natural? cs).map Int.ofNat

/-- A whole number between two bounds. -/
def boundedInteger? (least greatest : Int) (text : String) : Option Int :=
  (signedNatural? text.toList).filter fun i => least ≤ i && i ≤ greatest

/-- The least signed 64-bit integer. -/
def leastInteger : Int := -9223372036854775808

/-- The greatest signed 64-bit integer. -/
def greatestInteger : Int := 9223372036854775807

/-- A 64-bit word, with an optional plus sign. -/
def word? (text : String) : Option Nat :=
  match text.toList with
  | '+' :: rest => (natural? rest).filter (· < wordBound)
  | cs => (natural? cs).filter (· < wordBound)

/-! ### Doubles from a command line -/

/-- The digits at the head of a text and what follows them. -/
def spanDigits (cs : List Char) : List Char × List Char :=
  (cs.takeWhile isDigit, cs.dropWhile isDigit)

/-- What may follow the mantissa: nothing, or `e`, an optional sign and digits. -/
def exponent? : List Char → Option Int
  | [] => some 0
  | c :: rest => if c = 'e' ∨ c = 'E' then signedNatural? rest else none

/-- Digits around an optional point, at least one of them, and an optional exponent. -/
def decimal? (cs : List Char) : Option Decimal :=
  let (whole, rest) := spanDigits cs
  let (fraction, tail) := match rest with
    | '.' :: more => spanDigits more
    | _ => ([], rest)
  if whole.isEmpty && fraction.isEmpty then none
  else (exponent? tail).map fun e => ⟨digitsValue (whole ++ fraction), e - fraction.length⟩

/-- The unsigned notations: a decimal, or the name of an infinity or of no number. -/
def magnitude? (cs : List Char) : Option Float :=
  let name := String.ofList (cs.map Char.toLower)
  if name = "inf" ∨ name = "infinity" then some (1 / 0)
  else if name = "nan" then some (0 / 0)
  else (decimal? cs).map Decimal.toFloat

/-- A double in decimal notation or by name, with an optional sign. -/
def float? (text : String) : Option Float :=
  match text.toList with
  | '-' :: rest => (magnitude? rest).map fun x => -x
  | '+' :: rest => magnitude? rest
  | cs => magnitude? cs

end LogicNetwork
