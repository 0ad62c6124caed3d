import Mathlib.Data.List.TakeWhile
import Mathlib.Data.Nat.Digits.Defs
import Mathlib.Tactic.IntervalCases
import LogicNetwork.Document.JsonReader
import LogicNetwork.Document.JsonWriter

/-!
# Tokens of JSON

A string is read back from its quoted form: every character is written in a form that one step of
the reader takes in (`Json.stringBody_escapeChar`).  A number is read alike wherever it stands, as
long as nothing follows that could go on with it (`Json.number?_append`), and a natural number that
fits in a word is read back from its digits (`Json.number?_toDigits`).  Whether a double is read
back is up to the doubles, and not a matter of the grammar.
-/

namespace LogicNetwork.Json

/-! ### Strings -/

/-- The four hexadecimal digits of a control character are read as its number. -/
theorem hex4?_toDigits {n : Nat} (hn : n < 32) (rest : List Char) :
    hex4? (List.replicate (4 - (Nat.toDigits 16 n).length) '0' ++ Nat.toDigits 16 n ++ rest) =
      some (n, rest) := by
  interval_cases n <;> rfl

/-- One step takes in what one character is written as. -/
theorem stringBody_escapeChar (c : Char) (bound : Nat) (rest acc : List Char) :
    stringBody (bound + 1) (escapeChar c ++ rest) (some acc) =
      stringBody bound rest (some (c :: acc)) := by
  unfold escapeChar
  split_ifs with hquote hslash hback htab hline hfeed hreturn hcontrol
  · rw [hquote]
    rfl
  · rw [hslash]
    rfl
  · rw [hback]
    rfl
  · rw [htab]
    rfl
  · rw [hline]
    rfl
  · rw [hfeed]
    rfl
  · rw [hreturn]
    rfl
  · have hleading : isLeading c.toNat = false := by
      simp only [isLeading, Bool.and_eq_false_iff, decide_eq_false_iff_not]
      omega
    have htrailing : isTrailing c.toNat = false := by
      simp only [isTrailing, Bool.and_eq_false_iff, decide_eq_false_iff_not]
      omega
    show (hex4? (List.replicate (4 - (Nat.toDigits 16 c.toNat).length) '0' ++
      Nat.toDigits 16 c.toNat ++ rest) >>= _) = _
    rw [hex4?_toDigits hcontrol]
    simp [hleading, htrailing, Char.ofNat_toNat]
  · rw [List.singleton_append, stringBody.eq_def]
    simp [hquote, hslash, hcontrol]

/-- Each character costs one step, and the closing quote one more. -/
theorem stringBody_flatMap (cs : List Char) {bound : Nat} (hbound : cs.length < bound)
    (rest acc : List Char) :
    stringBody bound (cs.flatMap escapeChar ++ '"' :: rest) (some acc) =
      some (some (cs.reverse ++ acc), rest) := by
  induction cs generalizing bound acc with
  | nil =>
    obtain ⟨bound, rfl⟩ := Nat.exists_eq_add_of_lt hbound
    rw [List.length_nil, Nat.zero_add]
    rfl
  | cons c cs ih =>
    cases bound with
    | zero => omega
    | succ bound =>
      rw [List.length_cons] at hbound
      rw [List.flatMap_cons, List.append_assoc, stringBody_escapeChar, ih (by omega),
        List.reverse_cons, List.append_assoc, List.singleton_append]

/-- A string is read back from behind its opening quote. -/
theorem string?_quoted (s : String) {bound : Nat} (hbound : s.toList.length < bound)
    (rest : List Char) :
    string? bound (s.toList.flatMap escapeChar ++ '"' :: rest) = some (some s, rest) := by
  unfold string?
  rw [stringBody_flatMap s.toList hbound]
  simp

theorem length_le_length_flatMap_escapeChar (cs : List Char) :
    cs.length ≤ (cs.flatMap escapeChar).length := by
  have hpos : ∀ c, 1 ≤ (escapeChar c).length := by
    intro c
    unfold escapeChar
    split_ifs <;> simp [unicodeEscape]
  induction cs with
  | nil => exact Nat.le_refl 0
  | cons c cs ih =>
    have := hpos c
    rw [List.flatMap_cons, List.length_append, List.length_cons]
    omega

/-! ### Numbers in their place -/

/-- Whether no number goes on with what follows. -/
def EndsNumber (rest : List Char) : Prop :=
  ∀ c ∈ rest.head?, isDigit c = false ∧ c ≠ '.' ∧ c ≠ 'e' ∧ c ≠ 'E'

variable {cs more rest : List Char}

theorem spanDigits_append (hrest : EndsNumber rest) (cs : List Char) :
    spanDigits (cs ++ rest) = ((spanDigits cs).1, (spanDigits cs).2 ++ rest) := by
  have hstop : rest.takeWhile isDigit = [] ∧ rest.dropWhile isDigit = rest := by
    cases rest with
    | nil => exact ⟨rfl, rfl⟩
    | cons c rest =>
      have hc := (hrest c rfl).1
      simp [hc]
  unfold spanDigits
  induction cs with
  | nil =>
    rw [List.nil_append, hstop.1, hstop.2]
    rfl
  | cons c cs ih =>
    rw [Prod.mk.injEq] at ih
    rw [List.cons_append, List.takeWhile_cons, List.dropWhile_cons, List.takeWhile_cons,
      List.dropWhile_cons]
    split_ifs
    · rw [ih.1, ih.2]
    · rfl

theorem wholePart?_append (hrest : EndsNumber rest) {digits : List Char}
    (h : wholePart? cs = some (digits, more)) :
    wholePart? (cs ++ rest) = some (digits, more ++ rest) := by
  unfold wholePart? at h ⊢
  rw [spanDigits_append hrest]
  rcases hspan : spanDigits cs with ⟨ds, tail⟩
  rw [hspan] at h
  dsimp only at h ⊢
  split at h
  · cases h
  · cases h
  · simp only [Option.some.injEq, Prod.mk.injEq] at h
    obtain ⟨rfl, rfl⟩ := h
    rfl

theorem fractionPart?_append (hrest : EndsNumber rest) {fraction : Option (List Char)}
    (h : fractionPart? cs = some (fraction, more)) :
    fractionPart? (cs ++ rest) = some (fraction, more ++ rest) := by
  by_cases hpoint : ∃ ds, cs = '.' :: ds
  · obtain ⟨ds, rfl⟩ := hpoint
    rw [fractionPart?] at h
    rw [List.cons_append, fractionPart?, spanDigits_append hrest]
    dsimp only at h ⊢
    split_ifs at h ⊢
    simp only [Option.some.injEq, Prod.mk.injEq] at h ⊢
    exact ⟨h.1, congrArg (· ++ rest) h.2⟩
  · have hnone : fractionPart? cs = some (none, cs) := by
      unfold fractionPart?
      split
      · exact absurd ⟨_, rfl⟩ hpoint
      · rfl
    have hnone' : fractionPart? (cs ++ rest) = some (none, cs ++ rest) := by
      unfold fractionPart?
      split
      · rename_i ds heq
        cases cs with
        | nil =>
          rw [List.nil_append] at heq
          have hc := hrest '.' (by rw [heq]; rfl)
          exact absurd rfl hc.2.1
        | cons c cs =>
          obtain ⟨rfl, -⟩ := List.cons.inj heq
          exact absurd ⟨cs, rfl⟩ hpoint
      · rfl
    rw [hnone, Option.some.injEq, Prod.mk.injEq] at h
    rw [hnone', ← h.1, ← h.2]

/-- The sign of an exponent and what follows it. -/
def splitSign (cs : List Char) : Bool × List Char :=
  match cs with
  | '-' :: more => (true, more)
  | '+' :: more => (false, more)
  | _ => (false, cs)

/-- The digits of an exponent behind its sign. -/
def exponentDigits? (signed : Bool × List Char) : Option (Option Int × List Char) :=
  let (digits, rest) := spanDigits signed.2
  if digits.isEmpty then none
  else some (some (if signed.1 then -(digitsValue digits : Int) else digitsValue digits), rest)

theorem exponentPart?_cons (c : Char) (cs : List Char) : exponentPart? (c :: cs) =
    if c = 'e' ∨ c = 'E' then exponentDigits? (splitSign cs) else some (none, c :: cs) :=
  rfl

theorem splitSign_append (c : Char) (cs rest : List Char) : splitSign (c :: cs ++ rest) =
    ((splitSign (c :: cs)).1, (splitSign (c :: cs)).2 ++ rest) := by
  unfold splitSign
  split
  · rename_i more heq
    obtain ⟨rfl, rfl⟩ := List.cons.inj heq
    rfl
  · rename_i more heq
    obtain ⟨rfl, rfl⟩ := List.cons.inj heq
    rfl
  · rename_i hminus hplus
    split
    · rename_i heq
      obtain ⟨rfl, rfl⟩ := List.cons.inj heq
      exact absurd rfl (hminus _)
    · rename_i heq
      obtain ⟨rfl, rfl⟩ := List.cons.inj heq
      exact absurd rfl (hplus _)
    · rfl

theorem exponentPart?_append (hrest : EndsNumber rest) {exponent : Option Int}
    (h : exponentPart? cs = some (exponent, more)) :
    exponentPart? (cs ++ rest) = some (exponent, more ++ rest) := by
  cases cs with
  | nil =>
    obtain ⟨rfl, rfl⟩ := Prod.mk.inj (Option.some.inj h)
    rw [List.nil_append]
    cases rest with
    | nil => rfl
    | cons c rest =>
      obtain ⟨-, -, hlower, hupper⟩ := hrest c rfl
      rw [exponentPart?_cons, if_neg (not_or.mpr ⟨hlower, hupper⟩)]
  | cons c cs =>
    rw [exponentPart?_cons] at h
    rw [List.cons_append, exponentPart?_cons]
    split_ifs at h ⊢
    · cases cs with
      | nil => cases h
      | cons d cs =>
        -- the sign and the digits after it stand before what follows
        rw [splitSign_append, exponentDigits?, spanDigits_append hrest]
        rw [exponentDigits?] at h
        dsimp only at h ⊢
        split_ifs at h ⊢
        · obtain ⟨rfl, rfl⟩ := Prod.mk.inj (Option.some.inj h)
          rfl
        · obtain ⟨rfl, rfl⟩ := Prod.mk.inj (Option.some.inj h)
          rfl
    · obtain ⟨rfl, rfl⟩ := Prod.mk.inj (Option.some.inj h)
      rfl

/-- The parts of a number behind its sign. -/
def unsigned? (negative : Bool) (cs : List Char) : Option (Value × List Char) := do
  let (whole, cs) ← wholePart? cs
  let (fraction, cs) ← fractionPart? cs
  let (exponent, cs) ← exponentPart? cs
  some (numberValue negative whole fraction exponent, cs)

/-- The sign of a number and what follows it. -/
def splitMinus (cs : List Char) : Bool × List Char :=
  match cs with
  | '-' :: more => (true, more)
  | _ => (false, cs)

theorem number?_eq (cs : List Char) :
    number? cs = unsigned? (splitMinus cs).1 (splitMinus cs).2 :=
  rfl

theorem number?_of_ne {c : Char} (hc : c ≠ '-') (cs : List Char) :
    number? (c :: cs) = unsigned? false (c :: cs) := by
  have hsplit : splitMinus (c :: cs) = (false, c :: cs) := by
    unfold splitMinus
    split
    · rename_i heq
      exact absurd (List.cons.inj heq).1 hc
    · rfl
  rw [number?_eq, hsplit]

theorem unsigned?_append (hrest : EndsNumber rest) {negative : Bool} {v : Value}
    (h : unsigned? negative cs = some (v, more)) :
    unsigned? negative (cs ++ rest) = some (v, more ++ rest) := by
  unfold unsigned? at h ⊢
  obtain ⟨⟨whole, cs'⟩, hwhole, h⟩ := Option.bind_eq_some_iff.mp h
  obtain ⟨⟨fraction, cs''⟩, hfraction, h⟩ := Option.bind_eq_some_iff.mp h
  obtain ⟨⟨exponent, last⟩, hexponent, h⟩ := Option.bind_eq_some_iff.mp h
  obtain ⟨rfl, rfl⟩ := Prod.mk.inj (Option.some.inj h)
  rw [wholePart?_append hrest hwhole]
  show (fractionPart? (cs' ++ rest) >>= _) = _
  rw [fractionPart?_append hrest hfraction]
  show (exponentPart? (cs'' ++ rest) >>= _) = _
  rw [exponentPart?_append hrest hexponent]
  rfl

/-- A number that is read by itself is read in front of what does not go on with it. -/
theorem number?_append (hrest : EndsNumber rest) {v : Value} (h : number? cs = some (v, [])) :
    number? (cs ++ rest) = some (v, rest) := by
  cases cs with
  | nil => cases h
  | cons c cs =>
    by_cases hc : c = '-'
    · subst hc
      exact unsigned?_append hrest h
    · rw [number?_of_ne hc] at h
      rw [List.cons_append, number?_of_ne hc]
      exact unsigned?_append hrest h

/-- Numbers begin with a sign or a digit. -/
theorem head_of_number? {c : Char} {v : Value} (h : number? (c :: cs) = some (v, more)) :
    c = '-' ∨ isDigit c = true := by
  by_cases hc : c = '-'
  · exact .inl hc
  · right
    rw [number?_of_ne hc] at h
    obtain ⟨⟨whole, tail⟩, hwhole, -⟩ := Option.bind_eq_some_iff.mp h
    by_contra hdigit
    rw [wholePart?, spanDigits, List.takeWhile_cons_of_neg hdigit] at hwhole
    cases hwhole

/-! ### Natural numbers -/

theorem digit?_digitChar {n : Nat} (hn : n < 10) : digit? n.digitChar = some n := by
  interval_cases n <;> rfl

/-- The digits of a number are the digits of its tenth and the last one. -/
theorem toDigits_induction {P : Nat → List Char → Prop}
    (hsmall : ∀ n < 10, P n [n.digitChar])
    (hlarge : ∀ n, 10 ≤ n → P (n / 10) (Nat.toDigits 10 (n / 10)) →
      P n (Nat.toDigits 10 (n / 10) ++ [(n % 10).digitChar])) (n : Nat) :
    P n (Nat.toDigits 10 n) := by
  induction n using Nat.strong_induction_on with
  | _ n ih =>
    rcases Nat.lt_or_ge n 10 with hn | hn
    · rw [Nat.toDigits_of_lt_base hn]
      exact hsmall n hn
    · rw [Nat.toDigits_of_base_le (by decide) hn]
      exact hlarge n hn (ih _ (by omega))

theorem isDigit_toDigits (n : Nat) : ∀ c ∈ Nat.toDigits 10 n, isDigit c = true := by
  have hdigit : ∀ n < 10, isDigit n.digitChar = true := by
    intro n hn
    rw [isDigit, digit?_digitChar hn]
    rfl
  induction n using toDigits_induction with
  | hsmall n hn =>
    intro c hc
    rw [List.mem_singleton.mp hc]
    exact hdigit n hn
  | hlarge n hn ih =>
    intro c hc
    rcases List.mem_append.mp hc with hc | hc
    · exact ih c hc
    · rw [List.mem_singleton.mp hc]
      exact hdigit _ (Nat.mod_lt _ (by decide))

/-- Only zero begins with the digit zero. -/
theorem head_toDigits {n : Nat} (hn : 0 < n) : (Nat.toDigits 10 n).head? ≠ some '0' := by
  induction n using toDigits_induction with
  | hsmall n hlt =>
    interval_cases n <;> decide
  | hlarge n hge ih =>
    have hhead := ih (by omega)
    cases hdigits : Nat.toDigits 10 (n / 10) with
    | nil => exact absurd hdigits Nat.toDigits_ne_nil
    | cons c cs =>
      rw [hdigits] at hhead
      exact hhead

/-- A word takes in all digits of a number that fits. -/
theorem absorbDigits_toDigits {n : Nat} (hn : n < wordBound) (rest : List Char) :
    absorbDigits 0 (Nat.toDigits 10 n ++ rest) = absorbDigits n rest := by
  induction n using toDigits_induction generalizing rest with
  | hsmall n hlt =>
    rw [List.singleton_append, absorbDigits, digit?_digitChar hlt]
    simp [hn]
  | hlarge n hge ih =>
    have hnext : 10 * (n / 10) + n % 10 = n := Nat.div_add_mod n 10
    rw [List.append_assoc, ih (by omega), List.singleton_append, absorbDigits,
      digit?_digitChar (Nat.mod_lt _ (by decide)), Option.getD_some, hnext, if_pos hn]

/-- A natural number that fits in a word is read back from its digits. -/
theorem number?_toDigits {n : Nat} (hn : n < wordBound) :
    number? (Nat.toDigits 10 n) = some (.integer n, []) := by
  have hspan : spanDigits (Nat.toDigits 10 n) = (Nat.toDigits 10 n, []) := by
    rw [spanDigits, List.takeWhile_eq_self_iff.mpr (isDigit_toDigits n),
      List.dropWhile_eq_nil_iff.mpr (isDigit_toDigits n)]
  have hwhole : wholePart? (Nat.toDigits 10 n) = some (Nat.toDigits 10 n, []) := by
    rw [wholePart?, hspan]
    dsimp only
    split
    · rename_i heq
      exact absurd heq Nat.toDigits_ne_nil
    · rename_i c cs heq
      rcases Nat.eq_zero_or_pos n with rfl | hpos
      · cases heq
      · exact absurd (congrArg List.head? heq) (head_toDigits hpos)
    · rfl
  have hvalue : numberValue false (Nat.toDigits 10 n) none none = .integer n := by
    have habsorb := absorbDigits_toDigits hn []
    rw [List.append_nil, absorbDigits] at habsorb
    simp [numberValue, Decimal.ofDigits, habsorb, absorbDigits]
  have hunsigned : unsigned? false (Nat.toDigits 10 n) = some (.integer n, []) := by
    rw [unsigned?, hwhole, ← hvalue]
    rfl
  cases hdigits : Nat.toDigits 10 n with
  | nil => exact absurd hdigits Nat.toDigits_ne_nil
  | cons c cs =>
    have hc : c ≠ '-' := by
      rintro rfl
      have := isDigit_toDigits n '-' (by rw [hdigits]; exact List.mem_cons_self)
      cases this
    rw [number?_of_ne hc, ← hdigits]
    exact hunsigned

end LogicNetwork.Json
