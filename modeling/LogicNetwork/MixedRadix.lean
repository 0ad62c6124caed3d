/-
  MixedRadix — tuples of digits as numbers.

  A tuple whose `i`-th entry lies below the `i`-th radix is a numeral; its first digit is the
  least significant. Ground atoms are numbered this way inside the block of their predicate,
  and the substitutions of a clause are enumerated this way. `digits` and `value` are inverse
  to each other between the numerals and the numbers below `count`, and `next` is adding one.
-/

namespace LogicNetwork.MixedRadix

/-- How many numerals there are: the product of the radices. -/
def count : List Nat → Nat
  | [] => 1
  | r :: rs => r * count rs

/-- The digits of a number. -/
def digits : List Nat → Nat → List Nat
  | [], _ => []
  | r :: rs, n => n % r :: digits rs (n / r)

/-- The number that digits write. -/
def value : List Nat → List Nat → Nat
  | r :: rs, d :: ds => d + r * value rs ds
  | _, _ => 0

/-- The next numeral; the last one is followed by the first. -/
def next : List Nat → List Nat → List Nat
  | r :: rs, d :: ds => if d + 1 < r then (d + 1) :: ds else 0 :: next rs ds
  | _, ds => ds

/-- Whether every digit lies below its radix and none is missing. -/
def IsNumeral : List Nat → List Nat → Prop
  | [], [] => True
  | r :: rs, d :: ds => d < r ∧ IsNumeral rs ds
  | _, _ => False

/-! ### Numbers and numerals -/

theorem length_digits (rs : List Nat) (n : Nat) : (digits rs n).length = rs.length := by
  induction rs generalizing n with
  | nil => rfl
  | cons r rs ih => simp [digits, ih]

/-- A positive count means that every radix is positive. -/
theorem count_pos_iff {rs : List Nat} : 0 < count rs ↔ ∀ r ∈ rs, 0 < r := by
  induction rs with
  | nil => simp [count]
  | cons r rs ih =>
    simp only [count, List.mem_cons, forall_eq_or_imp, ← ih]
    exact ⟨fun h => ⟨Nat.pos_of_mul_pos_right h, Nat.pos_of_mul_pos_left h⟩,
      fun h => Nat.mul_pos h.1 h.2⟩

theorem isNumeral_digits {rs : List Nat} (h : ∀ r ∈ rs, 0 < r) (n : Nat) :
    IsNumeral rs (digits rs n) := by
  induction rs generalizing n with
  | nil => trivial
  | cons r rs ih =>
    exact ⟨Nat.mod_lt _ (h r (by simp)), ih (fun x hx => h x (by simp [hx])) _⟩

theorem value_lt_count {rs ds : List Nat} (h : IsNumeral rs ds) : value rs ds < count rs := by
  induction rs generalizing ds with
  | nil => cases ds <;> simp_all [IsNumeral, value, count]
  | cons r rs ih =>
    cases ds with
    | nil => exact h.elim
    | cons d ds =>
      have hs := Nat.mul_le_mul_left r (Nat.succ_le_of_lt (ih h.2))
      simp only [Nat.mul_succ] at hs
      have := h.1
      simp only [value, count]
      omega

theorem value_digits {rs : List Nat} {n : Nat} (h : n < count rs) :
    value rs (digits rs n) = n := by
  induction rs generalizing n with
  | nil => simp only [count] at h; simp only [value]; omega
  | cons r rs ih =>
    simp only [digits, value, count] at h ⊢
    rw [ih (Nat.div_lt_of_lt_mul h)]
    exact Nat.mod_add_div n r

theorem digits_value {rs ds : List Nat} (h : IsNumeral rs ds) : digits rs (value rs ds) = ds := by
  induction rs generalizing ds with
  | nil => cases ds <;> simp_all [IsNumeral, digits]
  | cons r rs ih =>
    cases ds with
    | nil => exact h.elim
    | cons d ds =>
      have pos : 0 < r := Nat.lt_of_le_of_lt (Nat.zero_le d) h.1
      simp only [value, digits]
      rw [Nat.add_mul_mod_self_left, Nat.mod_eq_of_lt h.1, Nat.add_mul_div_left _ _ pos,
        Nat.div_eq_of_lt h.1, Nat.zero_add, ih h.2]

/-! ### Counting up -/

/-- Counting digits up is adding one to the number, without the last carry. -/
theorem next_digits {rs : List Nat} (h : ∀ r ∈ rs, 0 < r) (n : Nat) :
    next rs (digits rs n) = digits rs (n + 1) := by
  induction rs generalizing n with
  | nil => rfl
  | cons r rs ih =>
    have pos : 0 < r := h r (by simp)
    have split := Nat.mod_add_div n r
    have small := Nat.mod_lt n pos
    simp only [digits, next]
    by_cases hlt : n % r + 1 < r
    · have eq : n + 1 = (n % r + 1) + r * (n / r) := by omega
      rw [if_pos hlt, eq, Nat.add_mul_mod_self_left, Nat.mod_eq_of_lt hlt,
        Nat.add_mul_div_left _ _ pos, Nat.div_eq_of_lt hlt, Nat.zero_add]
    · have eq : n + 1 = r * (n / r + 1) := by rw [Nat.mul_succ]; omega
      rw [if_neg hlt, ih (fun x hx => h x (by simp [hx])), eq, Nat.mul_mod_right,
        Nat.mul_div_cancel_left _ pos]

end LogicNetwork.MixedRadix
