import LogicNetwork.Proofs.Evidence.Functions
import LogicNetwork.Proofs.Evidence.Views
import LogicNetwork.Proofs.Grounding.Substitutions

/-!
# Atoms by name

A ground atom is named by a signature and a tuple of constants in the domains of its declaration
(`Layout.tuples`).  What a store says about an atom of a name is `Evidence.valueOf`, which does not
speak of ids; whatever can be encoded has a value (`Evidence.IsStoreOf.exists_get_of_encode`).

The ids of a block in ascending order are those of its tuples, with the constants of the first
domain coming the fastest (`Layout.forall₂_ids`).  Only tuples that are numbered past the last id
are left out, and there are none of these where all blocks end at `2 ^ 31` at the latest
(`Layout.IsComplete.exists_encode_of_mem_tuples`).
-/

namespace LogicNetwork

/-! ### Tuples of constants -/

theorem range_mul (r c : Nat) :
    List.range (r * c) = (List.range c).flatMap fun q => (List.range r).map (r * q + ·) := by
  induction c with
  | zero => rfl
  | succ c ih =>
    rw [Nat.mul_succ, List.range_add, ih, List.range_succ, List.flatMap_append,
      List.flatMap_singleton]

theorem MixedRadix.numerals_cons (r : Nat) (rs : List Nat) :
    numerals (r :: rs) = (numerals rs).flatMap fun ds => (List.range r).map (· :: ds) := by
  rw [numerals, numerals, count, range_mul, List.map_flatMap, List.flatMap_map]
  refine List.flatMap_congr fun q _ => ?_
  rw [List.map_map]
  refine List.map_congr_left fun i hi => ?_
  have hlt : i < r := List.mem_range.mp hi
  show (r * q + i) % r :: digits rs ((r * q + i) / r) = _
  rw [Nat.mul_add_mod, Nat.mod_eq_of_lt hlt, Nat.mul_add_div (Nat.zero_lt_of_lt hlt),
    Nat.div_eq_of_lt hlt, Nat.add_zero]

/-- The tuples of constants of domains.  The constants of the first domain come the fastest. -/
def tuplesOf : List Domain → List (List String)
  | [] => [[]]
  | d :: ds => (tuplesOf ds).flatMap fun rest => d.constants.toList.map (· :: rest)

theorem Domain.toList_constants (d : Domain) :
    d.constants.toList = (List.range d.size).map d.symbol := by
  refine List.ext_getElem (by simp [size]) fun i hi _ => ?_
  have hsymbol : d.symbol? i = some d.constants.toList[i] := Array.getElem?_eq_getElem hi
  rw [List.getElem_map, List.getElem_range, symbol, hsymbol, Option.getD_some]

/-- Tuples of constants are in the order of the numerals that they are numbered with. -/
theorem tuplesOf_eq (ds : List Domain) :
    tuplesOf ds =
      (MixedRadix.numerals (ds.map Domain.size)).map (List.zipWith Domain.symbol ds) := by
  induction ds with
  | nil => rfl
  | cons d ds ih =>
    rw [tuplesOf, ih, List.map_cons, MixedRadix.numerals_cons, List.flatMap_map, List.map_flatMap]
    refine List.flatMap_congr fun digits _ => ?_
    rw [d.toList_constants, List.map_map, List.map_map]
    rfl

theorem mem_tuplesOf {ds : List Domain} {constants : List String} :
    constants ∈ tuplesOf ds ↔ ∃ indices, MixedRadix.IsNumeral (ds.map Domain.size) indices ∧
      List.zipWith Domain.symbol ds indices = constants := by
  rw [tuplesOf_eq, List.mem_map]
  simp only [MixedRadix.mem_numerals]

/-! ### The ids of a block -/

namespace Block

variable {b : Block} {indices : List Nat} {id : AtomId}

/-- Encoding the symbols of numbers is encoding the numbers. -/
theorem encode_zipWith_eq_ok_iff (hindices : MixedRadix.IsNumeral b.radices indices) :
    b.encode (List.zipWith Domain.symbol b.domains indices) = .ok id ↔
      b.encodeIndices indices = some id := by
  have hlength : indices.length = b.domains.length := by
    rw [hindices.length_eq, radices, List.length_map]
  have hconstants : (List.zipWith Domain.symbol b.domains indices).length = b.domains.length := by
    rw [List.length_zipWith, hlength, Nat.min_self]
  have hlookup : lookup b.signature 0 b.domains (List.zipWith Domain.symbol b.domains indices) =
      .ok indices :=
    (lookup_eq_ok_iff hconstants).mpr ⟨hindices, rfl⟩
  unfold encode
  rw [if_neg (not_ne_iff.mpr hconstants), hlookup]
  dsimp only [bind, Except.bind]
  cases b.encodeIndices indices <;> simp

/-- The ids of a block, in ascending order, are those of its tuples that have one. -/
theorem IsPositional.forall₂_ids (h : b.IsPositional) :
    List.Forall₂ (fun id constants => b.encode constants = .ok id) b.ids
      ((tuplesOf b.domains).filter fun constants => (b.encode constants).isOk) := by
  have hids : b.ids = (List.range (MixedRadix.count b.radices)).filterMap
      fun k => AtomId.ofNat? (b.first.toNat + k) := by
    rw [ids, h.toNat_stop, Nat.add_sub_cancel_left, List.range'_eq_map_range, List.filterMap_map]
    rfl
  have htuples : tuplesOf b.domains = (List.range (MixedRadix.count b.radices)).map
      fun k => List.zipWith Domain.symbol b.domains (MixedRadix.digits b.radices k) := by
    rw [tuplesOf_eq, MixedRadix.numerals, List.map_map]
    rfl
  rw [hids, htuples]
  refine forall₂_filterMap_filter fun k hk => ?_
  have hencode : ∀ id, b.encode (List.zipWith Domain.symbol b.domains
      (MixedRadix.digits b.radices k)) = .ok id ↔ id.number = b.first.toNat + k := by
    intro id
    have hnumeral := MixedRadix.isNumeral_digits h.radices_pos k
    rw [encode_zipWith_eq_ok_iff hnumeral, encodeIndices_eq_some_iff h,
      MixedRadix.value_digits (List.mem_range.mp hk), and_iff_right hnumeral]
  cases hof : AtomId.ofNat? (b.first.toNat + k) with
  | none =>
    refine .inl ⟨rfl, Bool.eq_false_of_not_eq_true fun hok => ?_⟩
    obtain ⟨id, hid⟩ := Except.isOk_iff.mp hok
    rw [← (hencode id).mp hid, AtomId.ofNat?_number] at hof
    cases hof
  | some id =>
    have hid := (hencode id).mpr (AtomId.number_of_ofNat? hof)
    exact .inr ⟨id, rfl, Except.isOk_iff.mpr ⟨id, hid⟩, hid⟩

end Block

/-! ### The tuples of a declaration -/

namespace Layout

variable {l : Layout} {s : Signature} {b : Block} {constants : List String} {id : AtomId}

/-- The tuples of constants that the declaration of a signature allows. -/
def tuples (l : Layout) (s : Signature) : List (List String) :=
  ((l.schema.tables.find? fun p => p.signature == s).map fun p =>
    tuplesOf (p.domains.map l.domains.getOrEmpty)).getD []

theorem IsDeclared.tuples_eq (h : l.IsDeclared) (hb : b ∈ l.blocks) :
    l.tuples b.signature = tuplesOf b.domains := by
  obtain ⟨p, hp, hsignature, hdomains⟩ := h.exists_declaration hb
  rw [tuples, ← hsignature, find?_key_eq_some h.nodup_tables hp, Option.map_some,
    Option.getD_some, hdomains]

theorem IsDeclared.block_eq_ok (h : l.IsDeclared) (hb : b ∈ l.blocks) :
    l.block b.signature = .ok b :=
  block_eq_ok_iff_block?.mpr (find?_key_eq_some h.nodup_blocks hb)

/-- What can be encoded has numbers that can. -/
theorem exists_encodeIndices_of_encode (h : l.encode s constants = .ok id) :
    ∃ b ∈ l.blocks, b.signature = s ∧ ∃ indices, b.encodeIndices indices = some id := by
  obtain ⟨b, hb, indices, -, hid⟩ := atomOf?_of_encode h
  rw [atomOf?, hb, Option.bind_some] at hid
  obtain ⟨hmem, hsignature⟩ := mem_of_block? hb
  exact ⟨b, hmem, hsignature, indices, hid⟩

/-- The tuples of a signature that have an id. -/
def numbered (l : Layout) (s : Signature) : List (List String) :=
  (l.tuples s).filter fun constants => (l.encode s constants).isOk

theorem numbered_eq_tuples (h : ∀ constants ∈ l.tuples s, ∃ id, l.encode s constants = .ok id) :
    l.numbered s = l.tuples s :=
  List.filter_eq_self.mpr fun constants hconstants => Except.isOk_iff.mpr (h constants hconstants)

/-- The ids of a block, in ascending order, are those of the tuples of its declaration that have
one. -/
theorem forall₂_ids {schema : Schema} {domains : Domains} (hl : build schema domains = .ok l)
    (hb : b ∈ l.blocks) :
    List.Forall₂ (fun id constants => l.encode b.signature constants = .ok id ∧
      l.decode b.signature id = .ok constants) b.ids (l.numbered b.signature) := by
  have hdeclared := isDeclared_of_build hl
  have hencode : ∀ constants, l.encode b.signature constants = b.encode constants := by
    intro constants
    rw [encode, hdeclared.block_eq_ok hb]
    rfl
  have hdecode : ∀ id, l.decode b.signature id = b.decode id := by
    intro id
    rw [decode, hdeclared.block_eq_ok hb]
    rfl
  simp only [numbered, hencode, hdecode, hdeclared.tuples_eq hb]
  obtain ⟨p, start, hbuild, hnonempty⟩ := exists_build hl hb
  by_cases hfirst : start.toNat + 1 < 4294967296
  · have hpositional := (Block.isPositional_of_build hbuild hnonempty hfirst).1
    exact hpositional.forall₂_ids.imp fun id constants hid =>
      ⟨hid, (Block.encode_eq_ok_iff hpositional).mp hid⟩
  · -- a block that begins with the last word has neither ids nor tuples that have one
    have hnone : b.ids = [] := by
      rw [List.eq_nil_iff_forall_not_mem]
      intro id hid
      rw [Block.mem_ids, Block.contains, Bool.and_eq_true, decide_eq_true_iff,
        Block.first_of_build hbuild] at hid
      have hlt := id.lt
      omega
    rw [hnone, List.filter_eq_nil_iff.mpr]
    · exact .nil
    · intro constants hconstants hok
      obtain ⟨indices, hindices, rfl⟩ := mem_tuplesOf.mp hconstants
      obtain ⟨id, hid⟩ := Except.isOk_iff.mp hok
      rw [Block.encode_zipWith_eq_ok_iff hindices] at hid
      have hpositional := Block.isPositional_of_encodeIndices hbuild hnonempty hid
      have hlt := hpositional.first_lt_stop
      have hword := b.stop.toNat_lt
      rw [Block.first_of_build hbuild] at hlt
      omega

/-- Where all blocks end at `2 ^ 31` at the latest, every tuple of a declaration is encoded. -/
theorem IsComplete.exists_encode_of_mem_tuples (h : l.IsComplete)
    (hconstants : constants ∈ l.tuples s) : ∃ id, l.encode s constants = .ok id := by
  cases hp : l.schema.tables.find? fun p => p.signature == s with
  | none =>
    rw [tuples, hp] at hconstants
    cases hconstants
  | some p =>
    obtain ⟨b, hb, hsignature, -⟩ := h.exists_block (List.mem_of_find?_eq_some hp)
    have hs : p.signature = s := by simpa using List.find?_some hp
    rw [← hs, ← hsignature] at hconstants ⊢
    rw [h.tuples_eq hb] at hconstants
    obtain ⟨indices, hindices, rfl⟩ := mem_tuplesOf.mp hconstants
    obtain ⟨id, -, hid⟩ := h.exists_encode hb (h.stop_le b hb) hindices
    exact ⟨id, hid⟩

end Layout

/-! ### Values of names -/

namespace Evidence

variable {e : Evidence} {l : Layout} {s : Signature} {constants : List String} {id : AtomId}
  {v : TruthValue}

/-- The truth value of the atom of a name. -/
def valueOf (e : Evidence) (s : Signature) (constants : List String) : Option TruthValue :=
  (e.layout.encode s constants).toOption.bind fun id => (e.get s id).toOption

theorem valueOf_eq_some_iff : e.valueOf s constants = some v ↔
    ∃ id, e.layout.encode s constants = .ok id ∧ e.get s id = .ok v := by
  rw [valueOf, Option.bind_eq_some_iff]
  simp only [Except.toOption_eq_some_iff]

theorem valueOf_eq (h : e.layout.encode s constants = .ok id) :
    e.valueOf s constants = (e.get s id).toOption := by
  rw [valueOf, h]
  rfl

namespace IsStoreOf

/-- What can be encoded has a value. -/
theorem exists_get_of_encode (h : e.IsStoreOf l) {schema : Schema} {domains : Domains}
    (hl : Layout.build schema domains = .ok l) (hid : l.encode s constants = .ok id) :
    ∃ v, e.get s id = .ok v := by
  obtain ⟨b, hb, hsignature, indices, hindices⟩ := Layout.exists_encodeIndices_of_encode hid
  have hcontains := Layout.contains_of_encodeIndices hl hb hindices
  obtain ⟨t, ht⟩ := (h.exists_tableOf_iff (Layout.isDeclared_of_build hl)).mpr
    ⟨b, hb, hsignature, hcontains⟩
  exact ⟨t.get id, by rw [get, ht]; rfl⟩

/-- What has a value belongs to the block of its signature. -/
theorem exists_block_of_get (h : e.IsStoreOf l) (hl : l.IsDeclared) (hget : e.get s id = .ok v) :
    ∃ b ∈ l.blocks, b.signature = s ∧ b.contains id.number = true := by
  obtain ⟨t, ht, -⟩ := Except.map_eq_ok_iff.mp hget
  exact (h.exists_tableOf_iff hl).mp ⟨t, ht⟩

end IsStoreOf

end Evidence

/-! ### Names of ids -/

namespace Layout.IsLaidOut

variable {l : Layout} {s : Signature} {b : Block} {constants : List String} {id : AtomId}

/-- Where blocks lie end to end, every id of a block has a name. -/
theorem exists_encode_of_contains (h : l.IsLaidOut) (hb : b ∈ l.blocks)
    (hid : b.contains id.number = true) :
    ∃ constants, l.encode b.signature constants = .ok id ∧
      l.decodeAtom id = .ok (b.signature, constants) := by
  have hdecode : b.decode id = .ok (List.zipWith Domain.symbol b.domains
      (MixedRadix.digits b.radices (id.number - b.first.toNat))) :=
    Except.bind_eq_ok_iff.mpr ⟨_, Block.decodeIndices_eq_ok_iff.mpr ⟨hid, rfl⟩, rfl⟩
  exact ⟨_, h.encode_eq_ok_iff.mpr ⟨b, hb, rfl, hdecode⟩,
    h.decodeAtom_eq_ok_iff.mpr ⟨b, hb, rfl, hdecode⟩⟩

/-- The block of an id is the one of the signature of its name. -/
theorem signature_eq_of_encode (h : l.IsLaidOut) (hencode : l.encode s constants = .ok id)
    (hb : b ∈ l.blocks) (hid : b.contains id.number = true) : b.signature = s := by
  obtain ⟨others, -, hdecode⟩ := h.exists_encode_of_contains hb hid
  rw [h.decodeAtom_eq_ok_iff.mpr (h.encode_eq_ok_iff.mp hencode)] at hdecode
  exact (congrArg Prod.fst (Except.ok.inj hdecode)).symm

end Layout.IsLaidOut

end LogicNetwork
