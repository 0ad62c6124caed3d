/-
  Style — how numbers are written.

  A `FloatStyle` fixes the choices that formats make differently: which decimal exponents are
  written positionally, whether a whole number keeps `.0`, how an exponent looks, and where
  a tie between two shortest decimals goes. The three styles in use are `plain` (tables,
  messages and reports), `json` (JSON documents) and `labelled` (the one-line description of
  a session). `fixedPoint` writes a given number of places.
-/
import LogicNetwork.Number.Shortest

namespace LogicNetwork

/-! ### Styles -/

/-- The choices of a format for writing doubles. -/
structure FloatStyle where
  /-- The least and greatest decimal exponent written positionally; all of them if absent. -/
  positional : Option (Int × Int)
  /-- Whether a whole number in positional form ends in a point and a zero. -/
  keepsPoint : Bool
  /-- Whether a nonnegative exponent carries a plus sign. -/
  plusExponent : Bool
  /-- Where a tie between two shortest decimals goes. -/
  tie : Tie
deriving Repr

/-- Positional at every size, and no point in a whole number. -/
def FloatStyle.plain : FloatStyle := ⟨none, false, false, .up⟩

/-- JSON numbers: positional for decimal exponents -5 to 15, and always told from integers. -/
def FloatStyle.json : FloatStyle := ⟨some (-5, 15), true, true, .even⟩

/-- Field values of a description: positional for decimal exponents -4 to 15. -/
def FloatStyle.labelled : FloatStyle := ⟨some (-4, 15), true, false, .up⟩

/-! ### Writing digits -/

/-- Digits with a point after the first `before` of them; zeros fill both sides as needed. -/
def placePoint (digits : List Char) (before : Int) (keepsPoint : Bool) : List Char :=
  let tail := if keepsPoint then ['.', '0'] else []
  if before ≤ 0 then '0' :: '.' :: (List.replicate before.natAbs '0' ++ digits)
  else if before.natAbs < digits.length then
    digits.take before.natAbs ++ '.' :: digits.drop before.natAbs
  else digits ++ List.replicate (before.natAbs - digits.length) '0' ++ tail

/-- One digit, a point and the rest if there is any, and the decimal exponent. -/
def scientific (digits : List Char) (exponent : Int) (plus : Bool) : List Char :=
  let fraction := match digits.drop 1 with
    | [] => []
    | rest => '.' :: rest
  let sign := if exponent < 0 then ['-'] else if plus then ['+'] else []
  digits.take 1 ++ fraction ++ 'e' :: (sign ++ Nat.toDigits 10 exponent.natAbs)

/-- A magnitude in a style. -/
def Dyadic.write (style : FloatStyle) (d : Dyadic) : List Char :=
  if d.significand = 0 then '0' :: (if style.keepsPoint then ['.', '0'] else [])
  else
    let decimal := d.shortest style.tie
    let digits := Nat.toDigits 10 decimal.digits
    let exponent := decimal.exponent + digits.length - 1
    let positional := match style.positional with
      | none => true
      | some (least, greatest) => least ≤ exponent && exponent ≤ greatest
    if positional then placePoint digits (exponent + 1) style.keepsPoint
    else scientific digits exponent style.plusExponent

/-- A sign for negative numbers, negative zero among them. -/
def signed (negative : Bool) (body : List Char) : String :=
  String.ofList (if negative then '-' :: body else body)

/-- A double in a style. -/
def FloatStyle.write (style : FloatStyle) (x : Float) : String :=
  match Binary64.ofFloat x with
  | .nan => "NaN"
  | .infinite negative => signed negative "inf".toList
  | .finite negative magnitude => signed negative (magnitude.write style)

/-! ### Fixed places -/

/-- The last `places` digits of a natural behind a point, with at least one digit before it. -/
def pointBefore (places n : Nat) : List Char :=
  let digits := Nat.toDigits 10 n
  let padded := List.replicate (places + 1 - digits.length) '0' ++ digits
  let whole := padded.take (padded.length - places)
  if places = 0 then whole else whole ++ '.' :: padded.drop (padded.length - places)

/-- A double with a fixed number of places, rounded from its exact value; a half goes to the
even neighbour. -/
def fixedPoint (places : Nat) (x : Float) : String :=
  match Binary64.ofFloat x with
  | .nan => "NaN"
  | .infinite negative => signed negative "inf".toList
  | .finite negative magnitude =>
    signed negative (pointBefore places (magnitude.toRatio.timesTen places).roundHalfEven)

end LogicNetwork
