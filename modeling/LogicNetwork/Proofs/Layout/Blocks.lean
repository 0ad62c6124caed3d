import Mathlib.Algebra.Ring.Nat
import Mathlib.Tactic.SplitIfs
import LogicNetwork.Layout
import LogicNetwork.Proofs.Fallible

/-!
# One block of ids

`Block.IsPositional` says what a block that was built looks like: its domains have constants, the
weight of an argument is the number of tuples of the arguments before it, and the block ends
below `2 ^ 32`.  In such a block

* the offset of a tuple, computed in words, is its exact value as a numeral
  (`Block.encodeIndices_eq_some_iff`), because no sum that leads up to it reaches `2 ^ 32`
  (`Block.IsPositional.exactOffset_take_lt`);
* encoding and decoding are inverse to each other, for tuples of numbers
  (`Block.encodeIndices_eq_some_iff_decodeIndices`) and for tuples of constants
  (`Block.encode_eq_ok_iff`).

`Block.isPositional_of_build` says that building gives such blocks.
-/

namespace LogicNetwork

/-! ### Numerals -/

namespace MixedRadix

theorem IsNumeral.length_eq {rs ds : List Nat} (h : IsNumeral rs ds) : ds.length = rs.length := by
  induction rs generalizing ds with
  | nil => cases ds <;> simp_all [IsNumeral]
  | cons r rs ih =>
    cases ds with
    | nil => exact h.elim
    | cons d ds => rw [List.length_cons, List.length_cons, ih h.2]

theorem IsNumeral.lt_count_of_mem {rs ds : List Nat} (h : IsNumeral rs ds) {d : Nat}
    (hd : d ∈ ds) : d < count rs := by
  induction rs generalizing ds with
  | nil => cases ds <;> simp_all [IsNumeral]
  | cons r rs ih =>
    cases ds with
    | nil => exact h.elim
    | cons e ds =>
      have hrest : 0 < count rs := Nat.lt_of_le_of_lt (Nat.zero_le _) (value_lt_count h.2)
      have hr : 0 < r := Nat.lt_of_le_of_lt (Nat.zero_le e) h.1
      rw [count]
      rcases List.mem_cons.mp hd with rfl | hd
      · exact Nat.lt_of_lt_of_le h.1 (Nat.le_mul_of_pos_right r hrest)
      · exact Nat.lt_of_lt_of_le (ih h.2 hd) (Nat.le_mul_of_pos_left _ hr)

theorem count_take_le {rs : List Nat} (hpos : ∀ r ∈ rs, 0 < r) (k : Nat) :
    count (rs.take k) ≤ count rs := by
  induction rs generalizing k with
  | nil => exact Nat.le_of_eq (congrArg count List.take_nil)
  | cons r rs ih =>
    cases k with
    | zero => exact count_pos_iff.mpr hpos
    | succ k =>
      rw [List.take_succ_cons, count, count]
      exact Nat.mul_le_mul_left r (ih (fun x hx => hpos x (List.mem_cons_of_mem r hx)) k)

end MixedRadix

/-! ### Offsets -/

namespace Block

/-- The number of tuples of the arguments before each argument, times a factor. -/
def strides (tuples : Nat) : List Nat → List Nat
  | [] => []
  | r :: rs => tuples :: strides (tuples * r) rs

theorem length_strides (tuples : Nat) (rs : List Nat) : (strides tuples rs).length = rs.length := by
  induction rs generalizing tuples with
  | nil => rfl
  | cons r rs ih => rw [strides, List.length_cons, List.length_cons, ih]

theorem take_strides (tuples : Nat) (rs : List Nat) (k : Nat) :
    (strides tuples rs).take k = strides tuples (rs.take k) := by
  induction rs generalizing tuples k with
  | nil => rw [List.take_nil, strides, List.take_nil]
  | cons r rs ih =>
    cases k with
    | zero => rfl
    | succ k => rw [strides, List.take_succ_cons, List.take_succ_cons, strides, ih]

/-- The sum of the digits times their weights, as natural numbers. -/
def exactOffset (weights : List UInt32) (indices : List Nat) : Nat :=
  (List.zipWith (fun i weight => i * weight.toNat) indices weights).sum

theorem exactOffset_cons (weight : UInt32) (weights : List UInt32) (i : Nat)
    (indices : List Nat) :
    exactOffset (weight :: weights) (i :: indices) =
      i * weight.toNat + exactOffset weights indices := by
  rw [exactOffset, List.zipWith_cons_cons, List.sum_cons, exactOffset]

/-- An offset is only given to a tuple whose digits are all in range. -/
theorem isNumeral_of_offset?_eq_some {rs : List Nat} {weights : List UInt32} {ds : List Nat}
    {offset : UInt32} (hweights : weights.length = rs.length) (hds : ds.length = rs.length)
    (h : offset? rs weights ds = some offset) : MixedRadix.IsNumeral rs ds := by
  induction rs generalizing weights ds offset with
  | nil =>
    rw [List.length_nil, List.length_eq_zero_iff] at hds
    rw [hds]
    trivial
  | cons r rs ih =>
    obtain ⟨d, ds, rfl⟩ := List.exists_cons_of_length_eq_add_one hds
    obtain ⟨weight, weights, rfl⟩ := List.exists_cons_of_length_eq_add_one hweights
    rw [offset?] at h
    split_ifs at h with hd
    obtain ⟨rest, hrest, -⟩ := Option.map_eq_some_iff.mp h
    simp only [List.length_cons, Nat.add_right_cancel_iff] at hweights hds
    exact ⟨by omega, ih hweights hds hrest⟩

/-- Where the exact sum is a word, so are all that lead up to it, and the offset is exact. -/
theorem offset?_eq_some {rs : List Nat} {weights : List UInt32} {ds : List Nat}
    (hweights : weights.length = rs.length) (hds : MixedRadix.IsNumeral rs ds)
    (hdigits : ∀ d ∈ ds, d < 4294967296) (hexact : exactOffset weights ds < 4294967296) :
    ∃ offset, offset? rs weights ds = some offset ∧ offset.toNat = exactOffset weights ds := by
  induction rs generalizing weights ds with
  | nil =>
    have hnil := hds.length_eq
    rw [List.length_nil, List.length_eq_zero_iff] at hnil
    subst hnil
    exact ⟨0, rfl, rfl⟩
  | cons r rs ih =>
    obtain ⟨d, ds, rfl⟩ := List.exists_cons_of_length_eq_add_one hds.length_eq
    obtain ⟨weight, weights, rfl⟩ := List.exists_cons_of_length_eq_add_one hweights
    rw [exactOffset_cons] at hexact ⊢
    simp only [List.length_cons, Nat.add_right_cancel_iff] at hweights
    obtain ⟨rest, hrest, hvalue⟩ := ih hweights hds.2
      (fun x hx => hdigits x (List.mem_cons_of_mem d hx)) (by omega)
    have hd : ¬ r ≤ d := Nat.not_le.mpr hds.1
    have hsmall : d < 4294967296 := hdigits d List.mem_cons_self
    refine ⟨UInt32.ofNat d * weight + rest, ?_, ?_⟩
    · rw [offset?, if_neg hd, hrest, Option.map_some]
    · rw [UInt32.toNat_add, UInt32.toNat_mul, UInt32.toNat_ofNat_of_lt' hsmall, hvalue,
        Nat.mod_eq_of_lt (by omega), Nat.mod_eq_of_lt (by omega)]

/-- With the strides as weights, the exact sum is the value of the numeral. -/
theorem exactOffset_strides {tuples : Nat} (htuples : 0 < tuples) {rs ds : List Nat}
    (hds : MixedRadix.IsNumeral rs ds) (hsmall : tuples * MixedRadix.count rs < 4294967296) :
    exactOffset ((strides tuples rs).map UInt32.ofNat) ds = tuples * MixedRadix.value rs ds := by
  induction rs generalizing tuples ds with
  | nil => cases ds <;> simp_all [exactOffset, strides, MixedRadix.value, MixedRadix.IsNumeral]
  | cons r rs ih =>
    obtain ⟨d, ds, rfl⟩ := List.exists_cons_of_length_eq_add_one hds.length_eq
    have hr : 0 < r := Nat.lt_of_le_of_lt (Nat.zero_le d) hds.1
    rw [MixedRadix.count, ← Nat.mul_assoc] at hsmall
    -- the weight itself is a word, because at least one tuple follows
    have hcount : 0 < MixedRadix.count rs :=
      Nat.lt_of_le_of_lt (Nat.zero_le _) (MixedRadix.value_lt_count hds.2)
    have hword : tuples < 4294967296 := by
      have hle := Nat.le_mul_of_pos_right tuples (Nat.mul_pos hr hcount)
      rw [← Nat.mul_assoc] at hle
      omega
    rw [strides, List.map_cons, exactOffset_cons, ih (Nat.mul_pos htuples hr) hds.2 hsmall,
      UInt32.toNat_ofNat_of_lt' hword, MixedRadix.value, Nat.mul_add, Nat.mul_comm d,
      Nat.mul_assoc]

/-! ### Blocks of words -/

/-- Whether the weights of a block are the strides of its domains, none of which is empty, and
its end is a word. -/
structure IsPositional (b : Block) : Prop where
  radices_pos : ∀ r ∈ b.radices, 0 < r
  weights_eq : b.weights = (strides 1 b.radices).map UInt32.ofNat
  toNat_size : b.size.toNat = MixedRadix.count b.radices
  stop_lt : b.first.toNat + MixedRadix.count b.radices < 4294967296

namespace IsPositional

variable {b : Block}

theorem toNat_stop (h : b.IsPositional) :
    b.stop.toNat = b.first.toNat + MixedRadix.count b.radices := by
  rw [stop, UInt32.toNat_add, h.toNat_size]
  exact Nat.mod_eq_of_lt h.stop_lt

theorem first_lt_stop (h : b.IsPositional) : b.first.toNat < b.stop.toNat := by
  have hpos := MixedRadix.count_pos_iff.mpr h.radices_pos
  rw [h.toNat_stop]
  omega

theorem length_weights (h : b.IsPositional) : b.weights.length = b.radices.length := by
  rw [h.weights_eq, List.length_map, length_strides]

theorem contains_iff (h : b.IsPositional) {id : Nat} :
    b.contains id = true ↔
      b.first.toNat ≤ id ∧ id < b.first.toNat + MixedRadix.count b.radices := by
  rw [contains, Bool.and_eq_true, decide_eq_true_iff, decide_eq_true_iff, h.toNat_stop]

theorem exactOffset_eq (h : b.IsPositional) {indices : List Nat}
    (hindices : MixedRadix.IsNumeral b.radices indices) :
    exactOffset b.weights indices = MixedRadix.value b.radices indices := by
  have hstop := h.stop_lt
  rw [h.weights_eq, exactOffset_strides Nat.one_pos hindices (by omega), Nat.one_mul]

/-- The sum over the first arguments is the value of the numeral that they write. -/
theorem exactOffset_take (h : b.IsPositional) {indices : List Nat} {k : Nat}
    (hindices : MixedRadix.IsNumeral (b.radices.take k) (indices.take k)) :
    exactOffset (b.weights.take k) (indices.take k) =
      MixedRadix.value (b.radices.take k) (indices.take k) := by
  have hle := MixedRadix.count_take_le h.radices_pos k
  have hstop := h.stop_lt
  have hvalue := exactOffset_strides Nat.one_pos hindices (by omega)
  rw [h.weights_eq, ← List.map_take, take_strides, hvalue, Nat.one_mul]

/-- No sum on the way to an id reaches `2 ^ 32`. -/
theorem exactOffset_take_lt (h : b.IsPositional) {indices : List Nat} {k : Nat}
    (hindices : MixedRadix.IsNumeral (b.radices.take k) (indices.take k)) :
    b.first.toNat + exactOffset (b.weights.take k) (indices.take k) < 4294967296 := by
  have hle := MixedRadix.count_take_le h.radices_pos k
  have hvalue := MixedRadix.value_lt_count hindices
  have hstop := h.stop_lt
  rw [h.exactOffset_take hindices]
  omega

/-- Every digit is a word. -/
theorem lt_of_mem_take (h : b.IsPositional) {indices : List Nat} {k : Nat}
    (hindices : MixedRadix.IsNumeral (b.radices.take k) (indices.take k)) {i : Nat}
    (hi : i ∈ indices.take k) : i < 4294967296 := by
  have hlt := hindices.lt_count_of_mem hi
  have hle := MixedRadix.count_take_le h.radices_pos k
  have hstop := h.stop_lt
  omega

end IsPositional

/-! ### Encoding and decoding -/

variable {b : Block}

/-- The id of a tuple is the first id plus the value of the tuple. -/
theorem encodeIndices_eq_some_iff (h : b.IsPositional) {indices : List Nat} {id : AtomId} :
    b.encodeIndices indices = some id ↔ MixedRadix.IsNumeral b.radices indices ∧
      id.number = b.first.toNat + MixedRadix.value b.radices indices := by
  have hlength : b.radices.length = b.domains.length := List.length_map _
  -- for numerals, word arithmetic gives the exact sum
  have hsum : MixedRadix.IsNumeral b.radices indices →
      ∃ offset, offset? b.radices b.weights indices = some offset ∧
        (b.first + offset).toNat = b.first.toNat + MixedRadix.value b.radices indices := by
    intro hnumeral
    have hexact := h.exactOffset_eq hnumeral
    have hlt := MixedRadix.value_lt_count hnumeral
    have hstop := h.stop_lt
    have hdigits : ∀ i ∈ indices, i < 4294967296 := by
      intro i hi
      have hi := hnumeral.lt_count_of_mem hi
      omega
    obtain ⟨offset, hoffset, hvalue⟩ :=
      offset?_eq_some h.length_weights hnumeral hdigits (by omega)
    refine ⟨offset, hoffset, ?_⟩
    rw [UInt32.toNat_add, hvalue, hexact]
    exact Nat.mod_eq_of_lt (by omega)
  unfold encodeIndices
  split_ifs with hne
  · constructor
    · intro hid
      cases hid
    · rintro ⟨hnumeral, -⟩
      exact absurd (hnumeral.length_eq.trans hlength) hne
  · rw [not_ne_iff, ← hlength] at hne
    rw [Option.bind_eq_some_iff]
    constructor
    · rintro ⟨offset, hoffset, hid⟩
      have hnumeral := isNumeral_of_offset?_eq_some h.length_weights hne hoffset
      obtain ⟨exact, hexact, hvalue⟩ := hsum hnumeral
      rw [hoffset] at hexact
      cases hexact
      exact ⟨hnumeral, (AtomId.number_of_ofNat? hid).trans hvalue⟩
    · rintro ⟨hnumeral, hid⟩
      obtain ⟨offset, hoffset, hvalue⟩ := hsum hnumeral
      refine ⟨offset, hoffset, ?_⟩
      rw [hvalue, ← hid, AtomId.ofNat?_number]

theorem decodeIndices_eq_ok_iff {indices : List Nat} {id : AtomId} :
    b.decodeIndices id = .ok indices ↔ b.contains id.number = true ∧
      MixedRadix.digits b.radices (id.number - b.first.toNat) = indices := by
  unfold decodeIndices
  split_ifs with hcontains
  · rw [Except.ok.injEq]
    exact (and_iff_right hcontains).symm
  · constructor
    · intro h
      cases h
    · rintro ⟨h, -⟩
      exact absurd h hcontains

/-- Encoding and decoding of tuples of numbers are inverse to each other. -/
theorem encodeIndices_eq_some_iff_decodeIndices (h : b.IsPositional) {indices : List Nat}
    {id : AtomId} : b.encodeIndices indices = some id ↔ b.decodeIndices id = .ok indices := by
  rw [encodeIndices_eq_some_iff h, decodeIndices_eq_ok_iff, h.contains_iff]
  constructor
  · rintro ⟨hnumeral, hid⟩
    have hvalue := MixedRadix.value_lt_count hnumeral
    refine ⟨by omega, ?_⟩
    rw [hid, Nat.add_sub_cancel_left, MixedRadix.digits_value hnumeral]
  · rintro ⟨⟨hfirst, hstop⟩, rfl⟩
    have hoffset : id.number - b.first.toNat < MixedRadix.count b.radices := by omega
    have hvalue := MixedRadix.value_digits hoffset
    exact ⟨MixedRadix.isNumeral_digits h.radices_pos _, by omega⟩

/-! ### Constants -/

/-- Looking constants up gives the tuple of numbers that they are the symbols of. -/
theorem lookup_eq_ok_iff {signature : Signature} {position : Nat} {ds : List Domain}
    {cs : List String} (hcs : cs.length = ds.length) {indices : List Nat} :
    lookup signature position ds cs = .ok indices ↔
      MixedRadix.IsNumeral (ds.map Domain.size) indices ∧
        List.zipWith Domain.symbol ds indices = cs := by
  induction ds generalizing cs position indices with
  | nil =>
    rw [List.length_nil, List.length_eq_zero_iff] at hcs
    subst hcs
    cases indices <;> simp [lookup, MixedRadix.IsNumeral]
  | cons d ds ih =>
    obtain ⟨c, cs, rfl⟩ := List.exists_cons_of_length_eq_add_one hcs
    simp only [List.length_cons, Nat.add_right_cancel_iff] at hcs
    rw [lookup]
    constructor
    · intro h
      cases hc : d.indexOf? c with
      | none =>
        rw [hc] at h
        cases h
      | some i =>
        rw [hc] at h
        obtain ⟨rest, hrest, rfl⟩ := Except.map_eq_ok_iff.mp h
        have hsymbol := Domain.indexOf?_eq_some_iff.mp hc
        obtain ⟨hnumeral, hzip⟩ := (ih hcs).mp hrest
        refine ⟨⟨Domain.symbol?_lt hsymbol, hnumeral⟩, ?_⟩
        rw [List.zipWith_cons_cons, hzip, Domain.symbol, hsymbol, Option.getD_some]
    · rintro ⟨hnumeral, hzip⟩
      obtain ⟨i, indices, rfl⟩ := List.exists_cons_of_length_eq_add_one hnumeral.length_eq
      rw [List.zipWith_cons_cons, List.cons.injEq] at hzip
      obtain ⟨hc, hzip⟩ := hzip
      -- a number in range is the index of its symbol
      have hsymbol : d.symbol? i = some c := by
        have hi : i < d.constants.size := hnumeral.1
        rw [← hc, Domain.symbol, Domain.symbol?, Array.getElem?_eq_getElem hi, Option.getD_some]
      rw [Domain.indexOf?_eq_some_iff.mpr hsymbol]
      exact Except.map_eq_ok_iff.mpr ⟨indices, (ih hcs).mpr ⟨hnumeral.2, hzip⟩, rfl⟩

/-- Encoding and decoding of constants are inverse to each other. -/
theorem encode_eq_ok_iff (h : b.IsPositional) {constants : List String} {id : AtomId} :
    b.encode constants = .ok id ↔ b.decode id = .ok constants := by
  have hdecode : b.decode id = .ok constants ↔ ∃ indices, b.encodeIndices indices = some id ∧
      List.zipWith Domain.symbol b.domains indices = constants := by
    rw [decode, Except.bind_eq_ok_iff]
    refine exists_congr fun indices => and_congr ?_ ?_
    · exact (encodeIndices_eq_some_iff_decodeIndices h).symm
    · rw [Except.ok.injEq]
  rw [hdecode]
  unfold encode
  split_ifs with hne
  · constructor
    · intro hid
      cases hid
    · -- what a tuple of the right length names has the right length
      rintro ⟨indices, hindices, rfl⟩
      have hlength := ((encodeIndices_eq_some_iff h).mp hindices).1.length_eq
      rw [radices, List.length_map] at hlength
      rw [List.length_zipWith, hlength, Nat.min_self] at hne
      exact absurd rfl hne
  · rw [not_ne_iff] at hne
    rw [Except.bind_eq_ok_iff]
    constructor
    · rintro ⟨indices, hindices, hid⟩
      cases hencode : b.encodeIndices indices with
      | none =>
        rw [hencode] at hid
        cases hid
      | some found =>
        rw [hencode] at hid
        cases hid
        exact ⟨indices, hencode, ((lookup_eq_ok_iff hne).mp hindices).2⟩
    · rintro ⟨indices, hindices, hzip⟩
      have hnumeral := ((encodeIndices_eq_some_iff h).mp hindices).1
      exact ⟨indices, (lookup_eq_ok_iff hne).mpr ⟨hnumeral, hzip⟩, by rw [hindices]⟩

/-! ### Building -/

/-- Measuring gives the strides, the number of tuples, and the check on the last id. -/
theorem measure_eq_ok {domains : Domains} {first tuples total : Nat} {names : List String}
    {ds : List Domain} {weights : List UInt32}
    (h : measure domains first tuples names = .ok (ds, weights, total)) :
    weights = (strides tuples (ds.map Domain.size)).map UInt32.ofNat ∧
      total = tuples * MixedRadix.count (ds.map Domain.size) ∧
      (∀ d ∈ ds, ∃ name ∈ names, domains.require name = .ok d) ∧
      (names = [] ∧ ds = [] ∨ first + total ≤ 2147483648) := by
  induction names generalizing tuples ds weights total with
  | nil =>
    cases h
    exact ⟨rfl, (Nat.mul_one tuples).symm, by simp, .inl ⟨rfl, rfl⟩⟩
  | cons name names ih =>
    obtain ⟨d, hd, h⟩ := Except.bind_eq_ok_iff.mp h
    dsimp only at h
    split_ifs at h with hfull
    · cases h
    · obtain ⟨⟨ds', weights', total'⟩, hrest, h⟩ := Except.bind_eq_ok_iff.mp h
      cases h
      obtain ⟨hweights, htotal, hdomains, hlast⟩ := ih hrest
      refine ⟨?_, ?_, ?_, .inr ?_⟩
      · rw [hweights, List.map_cons, strides, List.map_cons]
      · rw [htotal, List.map_cons, MixedRadix.count, Nat.mul_assoc]
      · intro e he
        rcases List.mem_cons.mp he with rfl | he
        · exact ⟨name, List.mem_cons_self, Except.mapError_eq_ok_iff.mp hd⟩
        · obtain ⟨other, hother, hrequire⟩ := hdomains e he
          exact ⟨other, List.mem_cons_of_mem name hother, hrequire⟩
      · rcases hlast with ⟨-, rfl⟩ | hlast
        · -- the last argument: its own check is the one on the whole
          show first + total' ≤ 2147483648
          rw [htotal, List.map_nil, MixedRadix.count, Nat.mul_one]
          exact Nat.not_lt.mp hfull
        · exact hlast

theorem radices_pos_of_build {domains : Domains} {first : UInt32} {p : PredicateDecl} {b : Block}
    (h : build domains first p = .ok b)
    (hnonempty : ∀ name ∈ p.domains, ∀ d, domains.require name = .ok d → 0 < d.size) :
    ∀ r ∈ b.radices, 0 < r := by
  obtain ⟨⟨ds, weights, total⟩, hmeasure, h⟩ := Except.bind_eq_ok_iff.mp h
  cases h
  obtain ⟨-, -, hdomains, -⟩ := measure_eq_ok hmeasure
  intro r hr
  obtain ⟨d, hd, rfl⟩ := List.mem_map.mp hr
  obtain ⟨name, hname, hrequire⟩ := hdomains d hd
  exact hnonempty name hname d hrequire

/-- Building gives positional blocks, if no domain is empty and the next id is still a word. -/
theorem isPositional_of_build {domains : Domains} {first : UInt32} {p : PredicateDecl} {b : Block}
    (h : build domains first p = .ok b)
    (hnonempty : ∀ name ∈ p.domains, ∀ d, domains.require name = .ok d → 0 < d.size)
    (hfirst : first.toNat + 1 < 4294967296) :
    b.IsPositional ∧ b.signature = p.signature ∧ b.first = first ∧
      (b.stop.toNat ≤ 2147483648 ∨ b.stop.toNat = first.toNat + 1) := by
  have hradices := radices_pos_of_build h hnonempty
  obtain ⟨⟨ds, weights, total⟩, hmeasure, h⟩ := Except.bind_eq_ok_iff.mp h
  cases h
  obtain ⟨hweights, htotal, -, hlast⟩ := measure_eq_ok hmeasure
  rw [Nat.one_mul] at htotal
  -- without arguments there is one tuple, and otherwise the last check has bounded them
  have hend : total = 1 ∨ first.toNat + total ≤ 2147483648 := by
    rcases hlast with ⟨-, rfl⟩ | hlast
    · exact .inl htotal
    · exact .inr hlast
  have hpositional : IsPositional ⟨p.signature, ds, weights, first, UInt32.ofNat total⟩ := by
    refine ⟨hradices, hweights, ?_, ?_⟩
    · have hword : total < UInt32.size := by
        show total < 4294967296
        omega
      exact (UInt32.toNat_ofNat_of_lt' hword).trans htotal
    · show first.toNat + MixedRadix.count (ds.map Domain.size) < 4294967296
      omega
  refine ⟨hpositional, rfl, rfl, ?_⟩
  rw [hpositional.toNat_stop]
  show first.toNat + MixedRadix.count (ds.map Domain.size) ≤ 2147483648 ∨
    first.toNat + MixedRadix.count (ds.map Domain.size) = first.toNat + 1
  omega

end Block

end LogicNetwork
