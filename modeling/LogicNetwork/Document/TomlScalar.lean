/-
  TomlScalar — the scalars of TOML.

  Strings come in four kinds: quoted with escapes or without, on one line or on several.
  Numbers may have underscores between digits. Dates and times are checked and kept as they are
  written. Each reader takes the characters left and gives a datum and what follows it.
-/
import LogicNetwork.Document.JsonReader

namespace LogicNetwork.Toml

/-! ### Characters -/

/-- Blanks inside a line. -/
def isBlank (c : Char) : Bool :=
  c == ' ' || c == '\t'

/-- Drops blanks inside a line. -/
def skipBlanks (cs : List Char) : List Char :=
  cs.dropWhile isBlank

/-- Control characters, which stand nowhere in a document; a tab is none. -/
def isControl (c : Char) : Bool :=
  (c.toNat < 32 && c != '\t') || c.toNat == 127

/-- The characters of unquoted keys. -/
def isKeyChar (c : Char) : Bool :=
  isDigit c || ('a' ≤ c && c ≤ 'z') || ('A' ≤ c && c ≤ 'Z') || c == '_' || c == '-'

/-- Drops one line break. -/
def lineBreak? : List Char → Option (List Char)
  | '\n' :: rest => some rest
  | '\r' :: '\n' :: rest => some rest
  | _ => none

/-! ### Strings -/

/-- The number that hexadecimal digits write. -/
def hexValue? (cs : List Char) : Option Nat :=
  cs.foldlM (fun n c => (Json.hexDigit? c).map fun d => 16 * n + d) 0

/-- The character of a code given by hexadecimal digits. -/
def unicodeChar? (cs : List Char) : Option Char := do
  let n ← hexValue? cs
  if n < 0xD800 ∨ (0xE000 ≤ n ∧ n < 0x110000) then some (Char.ofNat n) else none

/-- What follows a backslash: the character it stands for and the rest. -/
def escape? : List Char → Option (Char × List Char)
  | '"' :: rest => some ('"', rest)
  | '\\' :: rest => some ('\\', rest)
  | 'b' :: rest => some (Char.ofNat 8, rest)
  | 't' :: rest => some ('\t', rest)
  | 'n' :: rest => some ('\n', rest)
  | 'f' :: rest => some (Char.ofNat 12, rest)
  | 'r' :: rest => some ('\r', rest)
  | 'u' :: rest =>
    if rest.length < 4 then none else (unicodeChar? (rest.take 4)).map (·, rest.drop 4)
  | 'U' :: rest =>
    if rest.length < 8 then none else (unicodeChar? (rest.take 8)).map (·, rest.drop 8)
  | _ => none

/-- Reads a one-line string to its closing quote; characters are collected in reverse. -/
def lineString (quote : Char) : Nat → List Char → List Char → Option (String × List Char)
  | 0, _, _ => none
  | _ + 1, [], _ => none
  | fuel + 1, c :: rest, acc =>
    if c = quote then some (String.ofList acc.reverse, rest)
    else if c = '\\' ∧ quote = '"' then do
      let (e, rest) ← escape? rest
      lineString quote fuel rest (e :: acc)
    else if isControl c then none
    else lineString quote fuel rest (c :: acc)

/-- Drops blanks and line breaks. -/
def skipBlankLines : List Char → List Char
  | '\n' :: rest => skipBlankLines rest
  | '\r' :: '\n' :: rest => skipBlankLines rest
  | c :: rest => if isBlank c then skipBlankLines rest else c :: rest
  | [] => []

/-- Whether a backslash ends the line, so that the blanks after it are no part of a string. -/
def endsLine (rest : List Char) : Bool :=
  (lineBreak? (skipBlanks rest)).isSome

/-- Reads a string over several lines to its three closing quotes, of which up to two more may
belong to the string. -/
def blockString (quote : Char) : Nat → List Char → List Char → Option (String × List Char)
  | 0, _, _ => none
  | _ + 1, [], _ => none
  | fuel + 1, c :: rest, acc =>
    if c = quote then
      let quotes := (c :: rest).takeWhile (· == quote)
      let after := (c :: rest).drop quotes.length
      if quotes.length < 3 then blockString quote fuel after (quotes ++ acc)
      else if 5 < quotes.length then none
      else some (String.ofList ((quotes.drop 3 ++ acc).reverse), after)
    else if c = '\\' ∧ quote = '"' then
      if endsLine rest then blockString quote fuel (skipBlankLines rest) acc
      else do
        let (e, rest) ← escape? rest
        blockString quote fuel rest (e :: acc)
    else
      match lineBreak? (c :: rest) with
      | some after => blockString quote fuel after ('\n' :: acc)
      | none => if isControl c then none else blockString quote fuel rest (c :: acc)

/-- Reads a string of any kind. -/
def string? (cs : List Char) : Option (String × List Char) :=
  let start (quote : Char) (rest : List Char) : Option (String × List Char) :=
    match rest with
    | a :: b :: body =>
      if a = quote ∧ b = quote then
        let body := (lineBreak? body).getD body
        blockString quote (body.length + 1) body []
      else lineString quote (rest.length + 1) rest []
    | _ => lineString quote (rest.length + 1) rest []
  match cs with
  | c :: rest => if c = '"' ∨ c = '\x27' then start c rest else none
  | [] => none

/-! ### Numbers -/

/-- Digits without the underscores between them; an underscore stands between two digits. -/
def withoutUnderscores? (isDigit : Char → Bool) (cs : List Char) : Option (List Char) :=
  let rec go : Bool → List Char → Option (List Char)
    | afterDigit, [] => if afterDigit then some [] else none
    | afterDigit, c :: rest =>
      if isDigit c then (go true rest).map (c :: ·)
      else if c = '_' ∧ afterDigit then go false rest
      else none
  go false cs

/-- A whole number without a needless leading zero. -/
def wholeDigits? (cs : List Char) : Option (List Char) := do
  let digits ← withoutUnderscores? isDigit cs
  match digits with
  | '0' :: _ :: _ => none
  | _ => some digits

/-- A sign and what follows it. -/
def splitSign : List Char → Bool × List Char
  | '-' :: rest => (true, rest)
  | '+' :: rest => (false, rest)
  | cs => (false, cs)

/-- An integer of the 64-bit range. -/
def rangedInteger? (i : Int) : Option Value :=
  if leastInteger ≤ i ∧ i ≤ greatestInteger then some (.integer i) else none

/-- An integer in one of the bases that have a mark. -/
def markedInteger? (isDigit : Char → Bool) (base : Nat) (cs : List Char) : Option Value := do
  let digits ← withoutUnderscores? isDigit cs
  let n ← digits.foldlM (fun n c => (Json.hexDigit? c).map fun d => base * n + d) 0
  rangedInteger? n

/-- An integer. -/
def integer? (cs : List Char) : Option Value :=
  match cs with
  | '0' :: 'x' :: rest => markedInteger? (fun c => (Json.hexDigit? c).isSome) 16 rest
  | '0' :: 'o' :: rest => markedInteger? (fun c => '0' ≤ c && c ≤ '7') 8 rest
  | '0' :: 'b' :: rest => markedInteger? (fun c => c == '0' || c == '1') 2 rest
  | _ => do
    let (negative, rest) := splitSign cs
    let digits ← wholeDigits? rest
    let n := digitsValue digits
    rangedInteger? (if negative then -(n : Int) else n)

/-- A double in decimal notation, with a fraction or an exponent. -/
def decimalFloat? (negative : Bool) (cs : List Char) : Option Value := do
  let (mantissa, tail) := cs.span fun c => c != 'e' && c != 'E'
  let (whole, rest) := mantissa.span fun c => c != '.'
  let whole ← wholeDigits? whole
  let fraction ← match rest with
    | [] => some []
    | _ :: digits => withoutUnderscores? isDigit digits
  let exponent ← match tail with
    | [] => if rest.isEmpty then none else some 0
    | _ :: tail => do
      let (negative, digits) := splitSign tail
      let digits ← withoutUnderscores? isDigit digits
      let size : Int := digitsValue digits
      some (if negative then -size else size)
  let x := Decimal.toSignedFloat negative
    ⟨digitsValue (whole ++ fraction), exponent - fraction.length⟩
  if x.isInf && !negative then none else some (.float x)

/-- A double in decimal notation or by name. -/
def float? (cs : List Char) : Option Value :=
  let (negative, rest) := splitSign cs
  let sign (x : Float) : Value := .float (if negative then -x else x)
  if rest = ['i', 'n', 'f'] then some (sign (1 / 0))
  else if rest = ['n', 'a', 'n'] then some (sign (0 / 0))
  else decimalFloat? negative rest

/-! ### Dates and times -/

/-- Whether characters follow a pattern, in which a zero stands for any digit. -/
def follows : List Char → List Char → Bool
  | [], [] => true
  | p :: ps, c :: cs => (if p = '0' then isDigit c else p == c) && follows ps cs
  | _, _ => false

/-- The number in a range of characters. -/
def fieldValue (cs : List Char) (start length : Nat) : Nat :=
  digitsValue ((cs.drop start).take length)

/-- Whether the number in a range of characters lies between two bounds. -/
def fieldWithin (cs : List Char) (start length least greatest : Nat) : Bool :=
  let n := fieldValue cs start length
  least ≤ n && n ≤ greatest

/-- Whether a year has a leap day. -/
def isLeapYear (year : Nat) : Bool :=
  year % 4 == 0 && (year % 100 != 0 || year % 400 == 0)

/-- How many days a month has. -/
def daysInMonth (year month : Nat) : Nat :=
  if month == 2 then if isLeapYear year then 29 else 28
  else if [4, 6, 9, 11].contains month then 30
  else 31

/-- Whether characters are a date of the calendar. -/
def isDate (cs : List Char) : Bool :=
  follows "0000-00-00".toList cs && fieldWithin cs 5 2 1 12 &&
    fieldWithin cs 8 2 1 (daysInMonth (fieldValue cs 0 4) (fieldValue cs 5 2))

/-- Whether characters are an offset from universal time. -/
def isOffset (cs : List Char) : Bool :=
  cs == ['Z'] || cs == ['z'] ||
    ((follows "+00:00".toList cs || follows "-00:00".toList cs) &&
      fieldWithin cs 1 2 0 23 && fieldWithin cs 4 2 0 59)

/-- Whether characters are a time, with an offset if one is allowed. -/
def isTime (withOffset : Bool) (cs : List Char) : Bool :=
  let clock := cs.take 8
  let rest := match cs.drop 8 with
    | '.' :: d :: more => if isDigit d then more.dropWhile isDigit else '.' :: d :: more
    | more => more
  follows "00:00:00".toList clock && fieldWithin clock 0 2 0 23 && fieldWithin clock 3 2 0 59 &&
    fieldWithin clock 6 2 0 60 && (rest.isEmpty || (withOffset && isOffset rest))

/-- Whether characters are a date, a time, or both. -/
def isDateTime (cs : List Char) : Bool :=
  isDate cs || isTime false cs ||
    (isDate (cs.take 10) && match cs.drop 10 with
      | c :: time => (c == 'T' || c == 't' || c == ' ') && isTime true time
      | [] => false)

/-! ### Unquoted scalars -/

/-- The characters of unquoted scalars. -/
def isScalarChar (c : Char) : Bool :=
  isKeyChar c || c == '+' || c == '.' || c == ':'

/-- The characters of an unquoted scalar and what follows it; a blank may divide a date from a
time. -/
def splitScalar (cs : List Char) : List Char × List Char :=
  let (token, rest) := cs.span isScalarChar
  match rest with
  | ' ' :: d :: more =>
    if isDate token && isDigit d then
      let (time, rest) := (d :: more).span isScalarChar
      (token ++ ' ' :: time, rest)
    else (token, rest)
  | _ => (token, rest)

/-- The value of a date or a time: a table with its text, which can stand where a table does. -/
def dateValue (token : List Char) : Value :=
  .table [("datetime", .text (String.ofList token))]

/-- Reads an unquoted scalar. -/
def scalar? (cs : List Char) : Option (Value × List Char) := do
  let (token, rest) := splitScalar cs
  if token = "true".toList then some (.bool true, rest)
  else if token = "false".toList then some (.bool false, rest)
  else if isDateTime token then some (dateValue token, rest)
  else
    let v ← (integer? token).or (float? token)
    some (v, rest)

end LogicNetwork.Toml
