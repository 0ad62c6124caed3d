/-
  JsonWriter — document trees as JSON text.

  `Value.compact` writes no blanks at all, `Value.pretty` one entry a line with two blanks of
  indentation. Strings escape quotes, backslashes and control characters and nothing else.
  Doubles are written in the style `FloatStyle.json`; one that JSON cannot write is `null`.
-/
import LogicNetwork.Document.Value
import LogicNetwork.Number.Style

namespace LogicNetwork

/-! ### Strings -/

/-- A control character in four hexadecimal digits. -/
def unicodeEscape (c : Char) : List Char :=
  let digits := Nat.toDigits 16 c.toNat
  '\\' :: 'u' :: (List.replicate (4 - digits.length) '0' ++ digits)

/-- One character inside a JSON string. -/
def escapeChar (c : Char) : List Char :=
  if c = '"' then ['\\', '"']
  else if c = '\\' then ['\\', '\\']
  else if c = Char.ofNat 8 then ['\\', 'b']
  else if c = '\t' then ['\\', 't']
  else if c = '\n' then ['\\', 'n']
  else if c = Char.ofNat 12 then ['\\', 'f']
  else if c = '\r' then ['\\', 'r']
  else if c.toNat < 32 then unicodeEscape c
  else [c]

/-- A string in quotes. -/
def quoted (s : String) : List Char :=
  '"' :: (s.toList.flatMap escapeChar ++ ['"'])

/-- A scalar; lists and tables are written by the two layouts below. -/
def Value.scalarChars : Value → List Char
  | .bool true => "true".toList
  | .bool false => "false".toList
  | .integer i => (toString i).toList
  | .float x => (if x.isFinite then FloatStyle.json.write x else "null").toList
  | .text s => quoted s
  | _ => "null".toList

namespace Value

/-! ### Compact layout -/

mutual

/-- The characters of JSON without blanks. -/
def compactChars : Value → List Char
  | list items => '[' :: (compactItems items ++ [']'])
  | table entries => '\x7b' :: (compactEntries entries ++ ['\x7d'])
  | v => v.scalarChars

/-- Items with commas between them. -/
def compactItems : List Value → List Char
  | [] => []
  | [v] => compactChars v
  | v :: rest => compactChars v ++ ',' :: compactItems rest

/-- Entries with commas between them. -/
def compactEntries : List (String × Value) → List Char
  | [] => []
  | [(name, v)] => quoted name ++ ':' :: compactChars v
  | (name, v) :: rest => quoted name ++ ':' :: (compactChars v ++ ',' :: compactEntries rest)

end

/-- JSON without blanks. -/
def compact (v : Value) : String :=
  String.ofList v.compactChars

/-! ### Indented layout -/

/-- A line break and the indentation of a level, in front of other characters. -/
def newLine (level : Nat) (cs : List Char) : List Char :=
  '\n' :: (List.replicate (2 * level) ' ' ++ cs)

mutual

/-- The characters of JSON with one entry a line, for a value that stands at the given level. -/
def prettyChars (level : Nat) : Value → List Char
  | list [] => ['[', ']']
  | list (v :: rest) =>
    '[' :: newLine (level + 1) (prettyChars (level + 1) v ++
      (prettyItems (level + 1) rest ++ newLine level [']']))
  | table [] => ['\x7b', '\x7d']
  | table ((name, v) :: rest) =>
    '\x7b' :: newLine (level + 1) (quoted name ++ ':' :: ' ' :: (prettyChars (level + 1) v ++
      (prettyEntries (level + 1) rest ++ newLine level ['\x7d'])))
  | v => v.scalarChars

/-- The items after the first, each behind a comma and a line break. -/
def prettyItems (level : Nat) : List Value → List Char
  | [] => []
  | v :: rest => ',' :: newLine level (prettyChars level v ++ prettyItems level rest)

/-- The entries after the first, each behind a comma and a line break. -/
def prettyEntries (level : Nat) : List (String × Value) → List Char
  | [] => []
  | (name, v) :: rest =>
    ',' :: newLine level (quoted name ++ ':' :: ' ' ::
      (prettyChars level v ++ prettyEntries level rest))

end

/-- JSON with one entry a line. -/
def pretty (v : Value) : String :=
  String.ofList (v.prettyChars 0)

end Value

end LogicNetwork
