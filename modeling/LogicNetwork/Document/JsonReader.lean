/-
  JsonReader — JSON text to document trees.

  `Value.ofJson?` accepts exactly the JSON grammar: one value, blanks around it, nothing after
  it. Each reader takes the characters left and gives a value and what follows it. Every call
  either consumes a character or hands over to a call that does, so twice the length of the
  text bounds the calls; `ofJson?` supplies that bound. What remains of it is never less than
  twice the length of the text that remains, so it also bounds the strings.
-/
import LogicNetwork.Document.Value

namespace LogicNetwork.Json

/-- The characters that may stand between tokens. -/
def isBlank (c : Char) : Bool :=
  c == ' ' || c == '\t' || c == '\n' || c == '\r'

/-- Drops blanks. -/
def skipBlanks (cs : List Char) : List Char :=
  cs.dropWhile isBlank

/-! ### Strings -/

/-- The value of a hexadecimal digit. -/
def hexDigit? (c : Char) : Option Nat :=
  if '0' ≤ c ∧ c ≤ '9' then some (c.toNat - '0'.toNat)
  else if 'a' ≤ c ∧ c ≤ 'f' then some (c.toNat - 'a'.toNat + 10)
  else if 'A' ≤ c ∧ c ≤ 'F' then some (c.toNat - 'A'.toNat + 10)
  else none

/-- Four hexadecimal digits. -/
def hex4? : List Char → Option (Nat × List Char)
  | a :: b :: c :: d :: rest => do
    let a ← hexDigit? a
    let b ← hexDigit? b
    let c ← hexDigit? c
    let d ← hexDigit? d
    some (4096 * a + 256 * b + 16 * c + d, rest)
  | _ => none

/-- A unit of the first half of a surrogate pair. -/
def isLeading (u : Nat) : Bool :=
  0xD800 ≤ u && u < 0xDC00

/-- A unit of the second half of a surrogate pair. -/
def isTrailing (u : Nat) : Bool :=
  0xDC00 ≤ u && u < 0xE000

/-- The character behind a backslash, if it is one of the single-letter escapes. -/
def simpleEscape? (c : Char) : Option Char :=
  if c = '"' ∨ c = '\\' ∨ c = '/' then some c
  else if c = 'b' then some (Char.ofNat 8)
  else if c = 'f' then some (Char.ofNat 12)
  else if c = 'n' then some '\n'
  else if c = 'r' then some '\r'
  else if c = 't' then some '\t'
  else none

/-- Reads to the closing quote. The characters are collected in reverse; a half surrogate pair
makes the whole string denote nothing, which the inner `none` says. -/
def stringBody : Nat → List Char → Option (List Char) → Option (Option (List Char) × List Char)
  | 0, _, _ => none
  | _ + 1, [], _ => none
  | fuel + 1, c :: rest, acc =>
    if c = '"' then some (acc, rest)
    else if c = '\\' then
      match rest with
      | 'u' :: digits => do
        let (unit, rest) ← hex4? digits
        if isTrailing unit then stringBody fuel rest none
        else if isLeading unit then
          match rest with
          | '\\' :: 'u' :: more => do
            let (second, after) ← hex4? more
            if isTrailing second then
              let code := 0x10000 + (unit - 0xD800) * 1024 + (second - 0xDC00)
              stringBody fuel after (acc.map (Char.ofNat code :: ·))
            else stringBody fuel rest none
          | _ => stringBody fuel rest none
        else stringBody fuel rest (acc.map (Char.ofNat unit :: ·))
      | e :: rest => do
        let e ← simpleEscape? e
        stringBody fuel rest (acc.map (e :: ·))
      | [] => none
    else if c.toNat < 32 then none
    else stringBody fuel rest (acc.map (c :: ·))

/-- Reads a string after its opening quote; it must be shorter than the bound. -/
def string? (bound : Nat) (cs : List Char) : Option (Option String × List Char) := do
  let (body, rest) ← stringBody bound cs (some [])
  some (body.map fun reversed => String.ofList reversed.reverse, rest)

/-! ### Numbers -/

/-- Digits without a needless leading zero. -/
def wholePart? (cs : List Char) : Option (List Char × List Char) :=
  let (digits, rest) := spanDigits cs
  match digits with
  | [] => none
  | '0' :: _ :: _ => none
  | _ => some (digits, rest)

/-- A point and digits, or nothing. -/
def fractionPart? : List Char → Option (Option (List Char) × List Char)
  | '.' :: cs =>
    let (digits, rest) := spanDigits cs
    if digits.isEmpty then none else some (some digits, rest)
  | cs => some (none, cs)

/-- An exponent, or nothing. -/
def exponentPart? : List Char → Option (Option Int × List Char)
  | c :: cs =>
    if c = 'e' ∨ c = 'E' then
      let (negative, cs) := match cs with
        | '-' :: more => (true, more)
        | '+' :: more => (false, more)
        | _ => (false, cs)
      let (digits, rest) := spanDigits cs
      if digits.isEmpty then none
      else
        let size : Int := digitsValue digits
        some (some (if negative then -size else size), rest)
    else some (none, c :: cs)
  | [] => some (none, [])

/-- The value of a number literal. Without fraction and exponent it is an integer, if a 64-bit word
or its negative in the signed range holds it, negative zero apart. All else is a double, rounded
in steps; what overflows the doubles denotes nothing. -/
def numberValue (negative : Bool) (whole : List Char) (fraction : Option (List Char))
    (exponent : Option Int) : Value :=
  let d := Decimal.ofDigits whole (fraction.getD []) (exponent.getD 0)
  let isWord := fraction.isNone && exponent.isNone && d.exponent == 0
  let hasNegative := 0 < d.digits && leastInteger ≤ -(d.digits : Int)
  if isWord && !negative then .integer d.digits
  else if isWord && hasNegative then .integer (-(d.digits : Int))
  else
    let x := d.toFloatInSteps
    if x.isInf then .unreadable else .float (if negative then -x else x)

/-- Reads a number. -/
def number? (cs : List Char) : Option (Value × List Char) := do
  let (negative, cs) := match cs with
    | '-' :: more => (true, more)
    | _ => (false, cs)
  let (whole, cs) ← wholePart? cs
  let (fraction, cs) ← fractionPart? cs
  let (exponent, cs) ← exponentPart? cs
  some (numberValue negative whole fraction exponent, cs)

/-! ### Values -/

/-- Reads one of the three names. -/
def name? (cs : List Char) : Option (Value × List Char) :=
  match cs with
  | 'n' :: 'u' :: 'l' :: 'l' :: rest => some (.null, rest)
  | 't' :: 'r' :: 'u' :: 'e' :: rest => some (.bool true, rest)
  | 'f' :: 'a' :: 'l' :: 's' :: 'e' :: rest => some (.bool false, rest)
  | _ => none

/-- Reads an entry name, which must be shorter than the bound, and the colon after it. -/
def entryName? (bound : Nat) (cs : List Char) : Option (Option String × List Char) :=
  match skipBlanks cs with
  | '"' :: rest => do
    let (name, rest) ← string? bound rest
    match skipBlanks rest with
    | ':' :: rest => some (name, rest)
    | _ => none
  | _ => none

/-- A table in front of its other entries, which an entry whose name denotes nothing keeps from
denoting anything. -/
def withEntry (name : Option String) (v : Value) (others : Option (List (String × Value))) :
    Option (List (String × Value)) :=
  match name, others with
  | some name, some others => some ((name, v) :: others)
  | _, _ => none

/-- The value of the entries of a table. -/
def tableValue : Option (List (String × Value)) → Value
  | some entries => .table entries
  | none => .unreadable

mutual

/-- Reads a value. -/
def value? : Nat → List Char → Option (Value × List Char)
  | 0, _ => none
  | fuel + 1, cs =>
    match skipBlanks cs with
    | [] => none
    | '[' :: rest =>
      match skipBlanks rest with
      | ']' :: rest => some (.list [], rest)
      | rest => (items? fuel rest).map fun (items, rest) => (.list items, rest)
    | '\x7b' :: rest =>
      match skipBlanks rest with
      | '\x7d' :: rest => some (.table [], rest)
      | rest => (entries? fuel rest).map fun (entries, rest) => (tableValue entries, rest)
    | '"' :: rest => do
      let (s, rest) ← string? fuel rest
      some (match s with | some s => .text s | none => .unreadable, rest)
    | c :: rest => if c = '-' ∨ isDigit c then number? (c :: rest) else name? (c :: rest)

/-- Reads the items of a list up to its closing bracket. -/
def items? : Nat → List Char → Option (List Value × List Char)
  | 0, _ => none
  | fuel + 1, cs => do
    let (v, rest) ← value? fuel cs
    match skipBlanks rest with
    | ',' :: rest => (items? fuel rest).map fun (vs, rest) => (v :: vs, rest)
    | ']' :: rest => some ([v], rest)
    | _ => none

/-- Reads the entries of a table up to its closing brace; the inner `none` says that the table
denotes nothing. -/
def entries? : Nat → List Char → Option (Option (List (String × Value)) × List Char)
  | 0, _ => none
  | fuel + 1, cs => do
    let (name, rest) ← entryName? fuel cs
    let (v, rest) ← value? fuel rest
    match skipBlanks rest with
    | ',' :: rest => (entries? fuel rest).map fun (es, rest) => (withEntry name v es, rest)
    | '\x7d' :: rest => some (withEntry name v (some []), rest)
    | _ => none

end

end LogicNetwork.Json

namespace LogicNetwork

/-- The tree of a JSON text, if the text is JSON. -/
def Value.ofJson? (text : String) : Option Value := do
  let cs := text.toList
  let (v, rest) ← Json.value? (2 * cs.length + 2) cs
  if (Json.skipBlanks rest).isEmpty then some v else none

end LogicNetwork
