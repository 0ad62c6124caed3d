import LogicNetwork.Proofs.Document.Tokens

/-!
# Trees of JSON text

A tree that JSON can say (`Value.IsPlain`) is read back from its indented text
(`Value.ofJson?_pretty`).  The argument is about the text of a tree wherever it stands: at any level
of indentation and in front of anything that does not go on with a number (`Json.IsReadAt`).  The
reader has a bound on its calls; twice the characters left are always enough, as every call for a
value takes in a character and every call for items or entries is followed by one for a value.

A double is part of such a tree if it is finite and its digits are read as itself.
-/

namespace LogicNetwork

/-- Whether a tree can be said in JSON, with natural numbers that fit in a word and doubles that
their digits give back. -/
inductive Value.IsPlain : Value → Prop
  | null : IsPlain .null
  | bool (b : Bool) : IsPlain (.bool b)
  | integer {n : Nat} (hn : n < wordBound) : IsPlain (.integer n)
  | float {x : Float} (hfinite : x.isFinite = true)
      (hread : Json.number? (FloatStyle.json.write x).toList = some (.float x, [])) :
      IsPlain (.float x)
  | text (s : String) : IsPlain (.text s)
  | list {items : List Value} (h : ∀ v ∈ items, IsPlain v) : IsPlain (.list items)
  | table {entries : List (String × Value)} (h : ∀ e ∈ entries, IsPlain e.2) :
      IsPlain (.table entries)

attribute [simp] Value.IsPlain.null Value.IsPlain.bool Value.IsPlain.text

@[simp]
theorem Value.isPlain_list {items : List Value} :
    (Value.list items).IsPlain ↔ ∀ v ∈ items, v.IsPlain :=
  ⟨fun | .list h => h, .list⟩

@[simp]
theorem Value.isPlain_table {entries : List (String × Value)} :
    (Value.table entries).IsPlain ↔ ∀ e ∈ entries, e.2.IsPlain :=
  ⟨fun | .table h => h, .table⟩

namespace Json

open Value

variable {v : Value} {level fuel : Nat} {rest : List Char}

/-! ### Blanks -/

theorem skipBlanks_newLine (level : Nat) (cs : List Char) :
    skipBlanks (newLine level cs) = skipBlanks cs := by
  have hspaces : ∀ n, skipBlanks (List.replicate n ' ' ++ cs) = skipBlanks cs := by
    intro n
    induction n with
    | zero => rfl
    | succ n ih =>
      rw [List.replicate_succ, List.cons_append]
      exact ih
  exact hspaces (2 * level)

theorem skipBlanks_cons_blank (cs : List Char) : skipBlanks (' ' :: cs) = skipBlanks cs :=
  rfl

theorem skipBlanks_of_head {c : Char} (hc : isBlank c = false) (cs : List Char) :
    skipBlanks (c :: cs) = c :: cs := by
  rw [skipBlanks, List.dropWhile_cons, hc, if_neg Bool.false_ne_true]

theorem newLine_append (level : Nat) (cs rest : List Char) :
    newLine level cs ++ rest = newLine level (cs ++ rest) := by
  simp [newLine]

theorem length_newLine (level : Nat) (cs : List Char) :
    (newLine level cs).length = 2 * level + cs.length + 1 := by
  simp [newLine]

theorem endsNumber_newLine (level : Nat) (cs : List Char) : EndsNumber (newLine level cs) := by
  intro c hc
  obtain rfl := Option.mem_some.mp hc
  decide

theorem endsNumber_comma (cs : List Char) : EndsNumber (',' :: cs) := by
  intro c hc
  obtain rfl := Option.mem_some.mp hc
  decide

/-- Blanks in front of a value make no difference. -/
theorem value?_congr {cs cs' : List Char} (h : skipBlanks cs = skipBlanks cs') (fuel : Nat) :
    value? fuel cs = value? fuel cs' := by
  cases fuel with
  | zero => rfl
  | succ fuel => rw [value?, value?, h]

theorem items?_newLine (fuel level : Nat) (cs : List Char) :
    items? fuel (newLine level cs) = items? fuel cs := by
  cases fuel with
  | zero => rfl
  | succ fuel => rw [items?, items?, value?_congr (skipBlanks_newLine level cs)]

theorem entries?_newLine (fuel level : Nat) (cs : List Char) :
    entries? fuel (newLine level cs) = entries? fuel cs := by
  cases fuel with
  | zero => rfl
  | succ fuel => rw [entries?, entries?, entryName?, entryName?, skipBlanks_newLine]

/-! ### Scalars -/

/-- Whether a tree is read back from its text at a level, whatever follows. -/
def IsReadAt (level : Nat) (v : Value) : Prop :=
  ∀ (fuel : Nat) (rest : List Char), EndsNumber rest →
    2 * ((v.prettyChars level).length + rest.length) ≤ fuel →
    value? fuel (v.prettyChars level ++ rest) = some (v, rest)

/-- One call is enough where the text of a tree is a single token. -/
theorem isReadAt_of_succ (hne : v.prettyChars level ≠ [])
    (hread : ∀ fuel rest, value? (fuel + 1) (v.prettyChars level ++ rest) = some (v, rest)) :
    IsReadAt level v := by
  intro fuel rest _ hfuel
  have hpos := List.length_pos_iff.mpr hne
  cases fuel with
  | zero => omega
  | succ fuel => exact hread fuel rest

section Number

variable {c : Char} (hc : c = '-' ∨ isDigit c = true)

include hc

theorem ne_of_number {d : Char} (hd : d ≠ '-') (hdigit : isDigit d = false) : c ≠ d := by
  rintro rfl
  rcases hc with hc | hc
  · exact hd hc
  · rw [hdigit] at hc
    cases hc

theorem isBlank_of_number : isBlank c = false := by
  simp only [isBlank, Bool.or_eq_false_iff, beq_eq_false_iff_ne]
  exact ⟨⟨⟨ne_of_number hc (by decide) (by decide), ne_of_number hc (by decide) (by decide)⟩,
    ne_of_number hc (by decide) (by decide)⟩, ne_of_number hc (by decide) (by decide)⟩

theorem value?_of_number (fuel : Nat) (cs : List Char) :
    value? (fuel + 1) (c :: cs) = number? (c :: cs) := by
  rw [value?, skipBlanks_of_head (isBlank_of_number hc)]
  split
  · rename_i heq
    cases heq
  · rename_i heq
    exact absurd (List.cons.inj heq).1 (ne_of_number hc (by decide) (by decide))
  · rename_i heq
    exact absurd (List.cons.inj heq).1 (ne_of_number hc (by decide) (by decide))
  · rename_i heq
    exact absurd (List.cons.inj heq).1 (ne_of_number hc (by decide) (by decide))
  · rename_i heq
    obtain ⟨rfl, rfl⟩ := List.cons.inj heq
    rw [if_pos hc]

end Number

theorem exists_head_of_number? {cs : List Char} (h : number? cs = some (v, [])) :
    ∃ c tail, cs = c :: tail ∧ isBlank c = false ∧ c ≠ ']' := by
  cases cs with
  | nil => cases h
  | cons c tail =>
    have hc := head_of_number? h
    exact ⟨c, tail, rfl, isBlank_of_number hc, ne_of_number hc (by decide) (by decide)⟩

/-- A number that is read by itself is read as a value. -/
theorem value?_number_append {cs : List Char} (h : number? cs = some (v, []))
    (hrest : EndsNumber rest) (hfuel : 2 * (cs.length + rest.length) ≤ fuel) :
    value? fuel (cs ++ rest) = some (v, rest) := by
  cases cs with
  | nil => cases h
  | cons c cs =>
    cases fuel with
    | zero =>
      rw [List.length_cons] at hfuel
      omega
    | succ fuel =>
      rw [List.cons_append, value?_of_number (head_of_number? h), ← List.cons_append]
      exact number?_append hrest h

theorem isReadAt_text (level : Nat) (s : String) : IsReadAt level (.text s) := by
  intro fuel rest _ hfuel
  have hchars : (Value.text s).prettyChars level ++ rest =
      '"' :: (s.toList.flatMap escapeChar ++ '"' :: rest) := by
    simp [prettyChars, scalarChars, quoted]
  have hlength := length_le_length_flatMap_escapeChar s.toList
  rw [← List.length_append, hchars, List.length_cons, List.length_append] at hfuel
  rw [hchars]
  cases fuel with
  | zero => omega
  | succ fuel =>
    rw [value?]
    show (string? fuel _ >>= _) = _
    rw [string?_quoted s (by omega)]
    rfl

theorem prettyChars_integer (n level : Nat) :
    (Value.integer n).prettyChars level = Nat.toDigits 10 n := by
  show (Nat.repr n).toList = Nat.toDigits 10 n
  rw [Nat.repr_eq_ofList_toDigits, String.toList_ofList]

theorem prettyChars_float {x : Float} (hfinite : x.isFinite = true) (level : Nat) :
    (Value.float x).prettyChars level = (FloatStyle.json.write x).toList := by
  show (if x.isFinite then FloatStyle.json.write x else "null").toList = _
  rw [if_pos hfinite]

theorem isReadAt_integer {n : Nat} (hn : n < wordBound) (level : Nat) :
    IsReadAt level (.integer n) := by
  intro fuel rest hrest hfuel
  rw [prettyChars_integer] at hfuel ⊢
  exact value?_number_append (number?_toDigits hn) hrest hfuel

theorem isReadAt_float {x : Float} (hfinite : x.isFinite = true)
    (hread : number? (FloatStyle.json.write x).toList = some (.float x, [])) (level : Nat) :
    IsReadAt level (.float x) := by
  intro fuel rest hrest hfuel
  rw [prettyChars_float hfinite] at hfuel ⊢
  exact value?_number_append hread hrest hfuel

/-- The text of a tree begins with neither a blank nor a closing bracket. -/
theorem exists_head (hv : v.IsPlain) (level : Nat) :
    ∃ c cs, v.prettyChars level = c :: cs ∧ isBlank c = false ∧ c ≠ ']' := by
  cases hv with
  | null => exact ⟨'n', _, rfl, rfl, by decide⟩
  | bool b =>
    cases b with
    | false => exact ⟨'f', _, rfl, rfl, by decide⟩
    | true => exact ⟨'t', _, rfl, rfl, by decide⟩
  | integer hn =>
    rw [prettyChars_integer]
    exact exists_head_of_number? (number?_toDigits hn)
  | float hfinite hread =>
    rw [prettyChars_float hfinite]
    exact exists_head_of_number? hread
  | text s => exact ⟨'"', _, rfl, rfl, by decide⟩
  | @list items h =>
    cases items with
    | nil => exact ⟨'[', _, rfl, rfl, by decide⟩
    | cons w items => exact ⟨'[', _, rfl, rfl, by decide⟩
  | @table entries h =>
    cases entries with
    | nil => exact ⟨'\x7b', _, rfl, rfl, by decide⟩
    | cons e entries => exact ⟨'\x7b', _, rfl, rfl, by decide⟩

/-! ### Lists and tables -/

/-- Behind an opening bracket that does not close at once, items are read. -/
theorem value?_list {cs ds : List Char} {d : Char} (hcs : skipBlanks cs = d :: ds) (hd : d ≠ ']')
    (fuel : Nat) :
    value? (fuel + 1) ('[' :: cs) =
      (items? fuel (d :: ds)).map fun (items, rest) => (.list items, rest) := by
  rw [value?, skipBlanks_of_head rfl]
  simp only [hcs]
  split
  · rename_i heq
    exact absurd (List.cons.inj heq).1 hd
  · rfl

/-- Behind an opening brace that does not close at once, entries are read. -/
theorem value?_table {cs ds : List Char} {d : Char} (hcs : skipBlanks cs = d :: ds)
    (hd : d ≠ '\x7d') (fuel : Nat) : value? (fuel + 1) ('\x7b' :: cs) =
      (entries? fuel (d :: ds)).map fun (entries, rest) => (tableValue entries, rest) := by
  rw [value?, skipBlanks_of_head rfl]
  simp only [hcs]
  split
  · rename_i heq
    exact absurd (List.cons.inj heq).1 hd
  · rfl

theorem items?_of_isReadAt {items : List Value} (hall : ∀ w ∈ v :: items, IsReadAt level w)
    (low : Nat) (rest : List Char) (fuel : Nat)
    (hfuel : 2 * ((v.prettyChars level).length + ((prettyItems level items).length +
      (newLine low (']' :: rest)).length)) + 1 ≤ fuel) :
    items? fuel (v.prettyChars level ++
      (prettyItems level items ++ newLine low (']' :: rest))) = some (v :: items, rest) := by
  induction items generalizing v fuel with
  | nil =>
    cases fuel with
    | zero => omega
    | succ fuel =>
      have hv := hall v List.mem_cons_self fuel (newLine low (']' :: rest))
        (endsNumber_newLine low _) (by rw [prettyItems, List.length_nil] at hfuel; omega)
      rw [prettyItems, List.nil_append, items?, hv]
      simp only [Option.bind_eq_bind, Option.bind_some, skipBlanks_newLine]
      rfl
  | cons w items ih =>
    cases fuel with
    | zero => omega
    | succ fuel =>
      have hlength : (prettyItems level (w :: items)).length =
          (w.prettyChars level).length + (prettyItems level items).length + 2 * level + 2 := by
        rw [prettyItems, List.length_cons, length_newLine, List.length_append]
        omega
      have hv := hall v List.mem_cons_self fuel
        (prettyItems level (w :: items) ++ newLine low (']' :: rest))
        (endsNumber_comma _) (by rw [List.length_append]; omega)
      have hitems := ih (fun u hu => hall u (List.mem_cons_of_mem v hu)) fuel (by omega)
      rw [items?, hv]
      show (items? fuel (newLine level (w.prettyChars level ++ prettyItems level items) ++
        newLine low (']' :: rest))).map _ = _
      rw [newLine_append, items?_newLine, List.append_assoc, hitems]
      rfl

theorem quoted_append (name : String) (cs : List Char) :
    quoted name ++ cs = '"' :: (name.toList.flatMap escapeChar ++ '"' :: cs) := by
  simp [quoted]

theorem length_quoted (name : String) :
    name.toList.length + 2 ≤ (quoted name).length := by
  have hlength := length_le_length_flatMap_escapeChar name.toList
  simp only [quoted, List.length_cons, List.length_append, List.length_nil]
  omega

/-- The name of an entry is read back, with the colon after it. -/
theorem entryName?_quoted {name : String} {bound : Nat} (hbound : name.toList.length < bound)
    (cs : List Char) : entryName? bound (quoted name ++ ':' :: cs) = some (some name, cs) := by
  rw [quoted_append, entryName?]
  show (string? bound _ >>= _) = _
  rw [string?_quoted name hbound]
  rfl

theorem entries?_of_isReadAt {name : String} {entries : List (String × Value)}
    (hall : ∀ e ∈ (name, v) :: entries, IsReadAt level e.2) (low : Nat) (rest : List Char)
    (fuel : Nat)
    (hfuel : 2 * ((quoted name).length + ((v.prettyChars level).length +
      ((prettyEntries level entries).length + (newLine low ('\x7d' :: rest)).length)) + 2) + 1 ≤
        fuel) :
    entries? fuel (quoted name ++ ':' :: ' ' :: (v.prettyChars level ++
      (prettyEntries level entries ++ newLine low ('\x7d' :: rest)))) =
        some (some ((name, v) :: entries), rest) := by
  induction entries generalizing name v fuel with
  | nil =>
    cases fuel with
    | zero => omega
    | succ fuel =>
      have hname := length_quoted name
      have hread : IsReadAt level v := hall (name, v) List.mem_cons_self
      have hv := hread fuel (newLine low ('\x7d' :: rest)) (endsNumber_newLine low _)
        (by rw [prettyEntries, List.length_nil] at hfuel; omega)
      rw [prettyEntries, List.nil_append, entries?, entryName?_quoted (by omega)]
      simp only [Option.bind_eq_bind, Option.bind_some]
      rw [value?_congr (skipBlanks_cons_blank _), hv]
      simp only [Option.bind_some, skipBlanks_newLine]
      rfl
  | cons e entries ih =>
    obtain ⟨other, w⟩ := e
    cases fuel with
    | zero => omega
    | succ fuel =>
      have hname := length_quoted name
      have hlength : (prettyEntries level ((other, w) :: entries)).length =
          (quoted other).length + (w.prettyChars level).length +
            (prettyEntries level entries).length + 2 * level + 4 := by
        rw [prettyEntries, List.length_cons, length_newLine, List.length_append, List.length_cons,
          List.length_cons, List.length_append]
        omega
      have hread : IsReadAt level v := hall (name, v) List.mem_cons_self
      have hv := hread fuel
        (prettyEntries level ((other, w) :: entries) ++ newLine low ('\x7d' :: rest))
        (endsNumber_comma _) (by rw [List.length_append]; omega)
      have hentries := ih (fun u hu => hall u (List.mem_cons_of_mem _ hu)) fuel (by omega)
      rw [entries?, entryName?_quoted (by omega)]
      simp only [Option.bind_eq_bind, Option.bind_some]
      rw [value?_congr (skipBlanks_cons_blank _), hv]
      show (entries? fuel (newLine level (quoted other ++ ':' :: ' ' ::
        (w.prettyChars level ++ prettyEntries level entries)) ++
          newLine low ('\x7d' :: rest))).map _ = _
      rw [newLine_append, entries?_newLine, List.append_assoc, List.cons_append, List.cons_append,
        List.append_assoc, hentries]
      rfl

/-! ### Trees -/

theorem isReadAt_list {items : List Value} (hplain : ∀ v ∈ items, v.IsPlain)
    (hall : ∀ v ∈ items, IsReadAt (level + 1) v) : IsReadAt level (.list items) := by
  intro fuel rest _ hfuel
  cases items with
  | nil =>
    cases fuel with
    | zero =>
      simp [prettyChars] at hfuel
    | succ fuel =>
      rw [prettyChars, value?]
      rfl
  | cons v items =>
    rw [prettyChars, List.length_cons, length_newLine, List.length_append, List.length_append,
      length_newLine, List.length_singleton] at hfuel
    cases fuel with
    | zero => omega
    | succ fuel =>
      obtain ⟨c, cs, hchars, hblank, hclose⟩ := exists_head (hplain v List.mem_cons_self) (level + 1)
      have hitems := items?_of_isReadAt hall level rest fuel
        (by rw [length_newLine, List.length_cons]; omega)
      have htext : (Value.list (v :: items)).prettyChars level ++ rest =
          '[' :: newLine (level + 1) (v.prettyChars (level + 1) ++
            (prettyItems (level + 1) items ++ newLine level (']' :: rest))) := by
        simp [prettyChars, newLine]
      have hskip : skipBlanks (newLine (level + 1) (v.prettyChars (level + 1) ++
          (prettyItems (level + 1) items ++ newLine level (']' :: rest)))) =
          c :: (cs ++ (prettyItems (level + 1) items ++ newLine level (']' :: rest))) := by
        rw [skipBlanks_newLine, hchars, List.cons_append, skipBlanks_of_head hblank]
      rw [hchars, List.cons_append] at hitems
      rw [htext, value?_list hskip hclose, hitems]
      rfl

theorem isReadAt_table {entries : List (String × Value)}
    (hall : ∀ e ∈ entries, IsReadAt (level + 1) e.2) : IsReadAt level (.table entries) := by
  intro fuel rest _ hfuel
  cases entries with
  | nil =>
    cases fuel with
    | zero =>
      simp [prettyChars] at hfuel
    | succ fuel =>
      rw [prettyChars, value?]
      rfl
  | cons e entries =>
    obtain ⟨name, v⟩ := e
    rw [prettyChars, List.length_cons, length_newLine, List.length_append, List.length_cons,
      List.length_cons, List.length_append, List.length_append, length_newLine,
      List.length_singleton] at hfuel
    cases fuel with
    | zero => omega
    | succ fuel =>
      have hentries := entries?_of_isReadAt hall level rest fuel
        (by rw [length_newLine, List.length_cons]; omega)
      have htext : (Value.table ((name, v) :: entries)).prettyChars level ++ rest =
          '\x7b' :: newLine (level + 1) (quoted name ++ ':' :: ' ' ::
            (v.prettyChars (level + 1) ++
              (prettyEntries (level + 1) entries ++ newLine level ('\x7d' :: rest)))) := by
        simp [prettyChars, newLine]
      rw [quoted_append] at hentries htext
      rw [htext, value?_table (skipBlanks_newLine _ _) (by decide), hentries]
      rfl

/-- A tree that JSON can say is read back from its text, wherever the text stands. -/
theorem isReadAt_of_isPlain (hv : v.IsPlain) (level : Nat) : IsReadAt level v := by
  induction hv generalizing level with
  | null => exact isReadAt_of_succ nofun fun _ _ => rfl
  | bool b =>
    cases b with
    | false => exact isReadAt_of_succ nofun fun _ _ => rfl
    | true => exact isReadAt_of_succ nofun fun _ _ => rfl
  | integer hn => exact isReadAt_integer hn level
  | float hfinite hread => exact isReadAt_float hfinite hread level
  | text s => exact isReadAt_text level s
  | list h ih => exact isReadAt_list h fun v hv => ih v hv (level + 1)
  | table h ih => exact isReadAt_table fun e he => ih e he (level + 1)

end Json

/-- A tree that JSON can say is read back from its indented text. -/
theorem Value.ofJson?_pretty {v : Value} (hv : v.IsPlain) : Value.ofJson? v.pretty = some v := by
  have hread := Json.isReadAt_of_isPlain hv 0 (2 * (v.prettyChars 0).length + 2) []
    (fun c hc => nomatch hc) (by rw [List.length_nil]; omega)
  rw [List.append_nil] at hread
  rw [ofJson?, pretty, String.toList_ofList, hread]
  rfl

end LogicNetwork
