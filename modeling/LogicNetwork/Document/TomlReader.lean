/-
  TomlReader — TOML text to document trees.

  A document is read line by line into a tree under construction. Inline tables obey the same
  rules for their keys as the document does. Keys have a limited number of parts, and values a
  limited depth. Every call consumes a character or hands over to one that does, so twice the
  length of the text bounds the calls; `Value.ofToml?` supplies that bound.
-/
import LogicNetwork.Document.TomlScalar
import LogicNetwork.Document.TomlTable

namespace LogicNetwork.Toml

/-! ### Keys -/

/-- Reads one part of a key. -/
def keyPart? (cs : List Char) : Option (String × List Char) :=
  match cs with
  | [] => none
  | c :: rest =>
    if c = '"' ∨ c = '\x27' then lineString c (rest.length + 1) rest []
    else
      let (part, rest) := cs.span isKeyChar
      if part.isEmpty then none else some (String.ofList part, rest)

/-- How many parts a key may have, and how many lists and tables a value may nest. -/
def levelLimit : Nat := 79

/-- Reads a key of at most the given number of parts: parts with dots between them, and blanks
around all of it. -/
def keyParts? : Nat → List Char → Option (List String × List Char)
  | 0, _ => none
  | limit + 1, cs => do
    let (part, rest) ← keyPart? (skipBlanks cs)
    match skipBlanks rest with
    | '.' :: rest => (keyParts? limit rest).map fun (parts, rest) => (part :: parts, rest)
    | rest => some ([part], rest)

/-- Reads a key. -/
def key? (cs : List Char) : Option (List String × List Char) :=
  keyParts? levelLimit cs

/-! ### Blank space -/

/-- Drops a comment up to the end of its line. -/
def skipComment (cs : List Char) : Option (List Char) :=
  match cs with
  | '#' :: rest =>
    let (_, after) := rest.span fun c => !isControl c
    if after.isEmpty || (lineBreak? after).isSome then some after else none
  | _ => some cs

/-- Drops blanks, comments and line breaks, as inside a list. -/
def skipSpace : Nat → List Char → Option (List Char)
  | 0, _ => none
  | fuel + 1, cs => do
    let cs ← skipComment (skipBlanks cs)
    match lineBreak? cs with
    | some rest => skipSpace fuel rest
    | none => some cs

/-- Drops what may follow a statement: a comment, and the line break unless the text ends. -/
def endOfLine? (cs : List Char) : Option (List Char) := do
  let cs ← skipComment (skipBlanks cs)
  if cs.isEmpty then some [] else lineBreak? cs

/-! ### Values -/

/-- The levels left inside a list or a table, which takes one. -/
def below? : Nat → Option Nat
  | 0 => none
  | levels + 1 => some levels

mutual

/-- Reads a value that nests lists and tables down to the given number of levels. -/
def value? : Nat → Nat → List Char → Option (Value × List Char)
  | 0, _, _ => none
  | fuel + 1, levels, cs =>
    match cs with
    | '[' :: rest => do
      let (items, rest) ← items? fuel (← below? levels) rest
      some (.list items, rest)
    | '\x7b' :: rest => do
      let levels ← below? levels
      match skipBlanks rest with
      | '\x7d' :: rest => some (.table [], rest)
      | rest =>
        let (entries, rest) ← inlineEntries? fuel levels [] rest
        some (.table (entriesToValue entries), rest)
    | c :: _ =>
      if c = '"' ∨ c = '\x27' then (string? cs).map fun (s, rest) => (.text s, rest)
      else scalar? cs
    | [] => none

/-- Reads the items of a list up to its closing bracket; a comma may follow the last. -/
def items? : Nat → Nat → List Char → Option (List Value × List Char)
  | 0, _, _ => none
  | fuel + 1, levels, cs => do
    let cs ← skipSpace (cs.length + 1) cs
    match cs with
    | ']' :: rest => some ([], rest)
    | _ =>
      let (v, rest) ← value? fuel levels cs
      let rest ← skipSpace (rest.length + 1) rest
      match rest with
      | ',' :: rest => (items? fuel levels rest).map fun (vs, rest) => (v :: vs, rest)
      | ']' :: rest => some ([v], rest)
      | _ => none

/-- Reads the entries of an inline table up to its closing brace. -/
def inlineEntries? : Nat → Nat → Entries → List Char → Option (Entries × List Char)
  | 0, _, _, _ => none
  | fuel + 1, levels, entries, cs => do
    let (key, rest) ← key? cs
    match rest with
    | '=' :: rest =>
      let (v, rest) ← value? fuel levels (skipBlanks rest)
      let entries ← insertKey (.leaf v) (1 < key.length) .header key entries
      match skipBlanks rest with
      | ',' :: rest => inlineEntries? fuel levels entries rest
      | '\x7d' :: rest => some (entries, rest)
      | _ => none
    | _ => none

end

/-! ### Statements -/

/-- The document so far, and the path of the header that the next keys belong to. -/
structure Document where
  root : Entries
  path : List String

namespace Document

/-- Takes in a header. -/
def addHeader (d : Document) (path : List String)
    (change : Entries → String → Option Entries) : Option Document :=
  match path.getLast? with
  | none => none
  | some name => (alongHeader (change · name) path.dropLast d.root).map fun root => ⟨root, path⟩

/-- Takes in a key and its value. -/
def addKey (d : Document) (key : List String) (v : Value) : Option Document :=
  (alongHeader (insertKey (.leaf v) (1 < key.length) .header key) d.path d.root).map fun root =>
    { d with root }

end Document

/-- Reads one statement that begins the text, up to the end of its line. -/
def statement? (cs : List Char) (d : Document) : Option (Document × List Char) :=
  match cs with
  | '[' :: '[' :: rest => do
    let (path, rest) ← key? rest
    match rest with
    | ']' :: ']' :: rest => some (← d.addHeader path appendTable, ← endOfLine? rest)
    | _ => none
  | '[' :: rest => do
    let (path, rest) ← key? rest
    match rest with
    | ']' :: rest => some (← d.addHeader path defineTable, ← endOfLine? rest)
    | _ => none
  | _ => do
    let (key, rest) ← key? cs
    match rest with
    | '=' :: rest =>
      let rest := skipBlanks rest
      let (v, rest) ← value? (2 * rest.length + 2) levelLimit rest
      some (← d.addKey key v, ← endOfLine? rest)
    | _ => none

/-- Reads statements to the end of the text. -/
def statements? : Nat → List Char → Document → Option Document
  | 0, _, _ => none
  | fuel + 1, cs, d => do
    let cs ← skipSpace (cs.length + 1) cs
    if cs.isEmpty then some d
    else
      let (d, rest) ← statement? cs d
      statements? fuel rest d

end LogicNetwork.Toml

namespace LogicNetwork

/-- The tree of a TOML text, if the text is TOML. A byte order mark may precede it. -/
def Value.ofToml? (text : String) : Option Value := do
  let cs := match text.toList with
    | '\ufeff' :: rest => rest
    | cs => cs
  let d ← Toml.statements? (cs.length + 1) cs ⟨[], []⟩
  some (.table (Toml.entriesToValue d.root))

end LogicNetwork
