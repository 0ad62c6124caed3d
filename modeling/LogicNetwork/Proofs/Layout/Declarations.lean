import LogicNetwork.Evidence.FunctionTable
import LogicNetwork.Proofs.Layout.Numbering

/-!
# Blocks and declarations

A layout that was built has one block for each declaration, with the signature and the domains that
the declaration names (`Layout.IsDeclared`).  All of these domains belong to the theory, in which a
name stands for one domain only (`Domains.eq_of_name_eq`).

The id of a tuple belongs to the block that it was computed in, whether or not ends wrap
(`Layout.contains_of_encodeIndices`).  If all blocks end at `2 ^ 31` at the latest, then no end
wraps, however many declarations there are (`Layout.isLaidOut_of_stop_le`), and every tuple of
constants in the domains of a declaration has its id (`Layout.IsLaidOut.exists_encode`).  Blocks
that have arguments end there anyway, unless ends wrap (`Layout.isRegular_of_build`).
-/

namespace LogicNetwork

/-! ### Domains by name -/

namespace Domains

variable {ds : Domains} {d e : Domain} {name : String}

theorem get?_eq_some (h : ds.get? name = some d) : d ∈ ds.all ∧ d.name = name :=
  ⟨List.mem_of_find?_eq_some h, by simpa using List.find?_some h⟩

/-- A name stands for one domain. -/
theorem eq_of_name_eq (hd : d ∈ ds.all) (he : e ∈ ds.all) (hname : d.name = e.name) : d = e := by
  have hnodup : (ds.all.map Domain.name).Nodup := by
    rw [List.nodup_iff_pairwise_ne, List.pairwise_map]
    refine ds.sorted.imp fun {a b} hlt heq => ?_
    rw [heq] at hlt
    exact String.lt_irrefl _ hlt
  have hfirst := find?_key_eq_some hnodup hd
  have hsecond := find?_key_eq_some hnodup he
  rw [hname, hsecond] at hfirst
  exact (Option.some.inj hfirst).symm

theorem getOrEmpty_eq (h : ds.get? name = some d) : ds.getOrEmpty name = d := by
  rw [getOrEmpty, h, Option.getD_some]

theorem require_eq_ok_iff : ds.require name = .ok d ↔ ds.get? name = some d := by
  unfold require
  split <;> simp_all

end Domains

/-! ### Checked declarations -/

namespace Schema

variable {domains : Domains}

theorem exists_get?_of_checkTables {seen : List Signature} {ps : List PredicateDecl}
    (h : checkTables domains seen ps = .ok ()) {p : PredicateDecl} (hp : p ∈ ps) {name : String}
    (hname : name ∈ p.domains) : ∃ d, domains.get? name = some d := by
  induction ps generalizing seen with
  | nil => cases hp
  | cons q ps ih =>
    rw [checkTables] at h
    dsimp only at h
    split_ifs at h
    · cases h
    · obtain ⟨⟨⟩, hdomains, h⟩ := Except.bind_eq_ok_iff.mp h
      rcases List.mem_cons.mp hp with rfl | hp
      · obtain ⟨d, hd, -⟩ := Except.bind_eq_ok_iff.mp (Except.forM_eq_ok_iff.mp hdomains name hname)
        exact ⟨d, Domains.require_eq_ok_iff.mp (Except.mapError_eq_ok_iff.mp hd)⟩
      · exact ih h hp

/-- The domains that a checked schema names belong to the theory. -/
theorem getOrEmpty_mem {s : Schema} (h : s.validate domains = .ok ()) {p : PredicateDecl}
    (hp : p ∈ s.tables) {name : String} (hname : name ∈ p.domains) :
    domains.getOrEmpty name ∈ domains.all := by
  obtain ⟨d, hd⟩ := exists_get?_of_checkTables h hp hname
  rw [Domains.getOrEmpty_eq hd]
  exact (Domains.get?_eq_some hd).1

end Schema

/-! ### Declared blocks -/

namespace Block

theorem domains_of_measure {domains : Domains} {first tuples total : Nat} {names : List String}
    {ds : List Domain} {weights : List UInt32}
    (h : measure domains first tuples names = .ok (ds, weights, total)) :
    ds = names.map domains.getOrEmpty := by
  induction names generalizing tuples ds weights total with
  | nil =>
    cases h
    rfl
  | cons name names ih =>
    obtain ⟨d, hd, h⟩ := Except.bind_eq_ok_iff.mp h
    dsimp only at h
    split_ifs at h
    · cases h
    · obtain ⟨⟨ds', weights', total'⟩, hrest, h⟩ := Except.bind_eq_ok_iff.mp h
      cases h
      rw [Except.mapError_eq_ok_iff, Domains.require_eq_ok_iff] at hd
      rw [List.map_cons, ← ih hrest, Domains.getOrEmpty_eq hd]

theorem build_eq_ok {domains : Domains} {first : UInt32} {p : PredicateDecl} {b : Block}
    (h : build domains first p = .ok b) :
    b.signature = p.signature ∧ b.domains = p.domains.map domains.getOrEmpty := by
  obtain ⟨⟨ds, weights, total⟩, hmeasure, h⟩ := Except.bind_eq_ok_iff.mp h
  cases h
  exact ⟨rfl, domains_of_measure hmeasure⟩

theorem first_of_build {domains : Domains} {first : UInt32} {p : PredicateDecl} {b : Block}
    (h : build domains first p = .ok b) : b.first = first := by
  obtain ⟨⟨ds, weights, total⟩, -, h⟩ := Except.bind_eq_ok_iff.mp h
  cases h
  rfl

end Block

namespace Layout

/-- Whether a layout has a block for each of its declarations, no two of which share a signature,
with the domains of the declaration, all of which belong to the theory. -/
structure IsDeclared (l : Layout) : Prop where
  blocks_eq : l.blocks.map (fun b => (b.signature, b.domains)) =
    l.schema.tables.map fun p => (p.signature, p.domains.map l.domains.getOrEmpty)
  domain_mem : ∀ p ∈ l.schema.tables, ∀ name ∈ p.domains,
    l.domains.getOrEmpty name ∈ l.domains.all
  nodup_tables : (l.schema.tables.map PredicateDecl.signature).Nodup

theorem map_block_of_buildBlocks {domains : Domains} {first : UInt32} {ps : List PredicateDecl}
    {blocks : List Block} (h : buildBlocks domains first ps = .ok blocks) :
    blocks.map (fun b => (b.signature, b.domains)) =
      ps.map fun p => (p.signature, p.domains.map domains.getOrEmpty) := by
  induction ps generalizing first blocks with
  | nil =>
    cases h
    rfl
  | cons p ps ih =>
    obtain ⟨b, hb, h⟩ := Except.bind_eq_ok_iff.mp h
    obtain ⟨rest, hrest, rfl⟩ := Except.map_eq_ok_iff.mp h
    obtain ⟨hsignature, hdomains⟩ := Block.build_eq_ok hb
    rw [List.map_cons, List.map_cons, ih hrest, hsignature, hdomains]

theorem isDeclared_of_build {schema : Schema} {domains : Domains} {l : Layout}
    (h : build schema domains = .ok l) : l.IsDeclared := by
  obtain ⟨⟨⟩, hvalid, h⟩ := Except.bind_eq_ok_iff.mp h
  obtain ⟨blocks, hblocks, h⟩ := Except.bind_eq_ok_iff.mp h
  cases h
  exact ⟨map_block_of_buildBlocks hblocks,
    fun p hp name hname => Schema.getOrEmpty_mem hvalid hp hname,
    (Schema.checkTables_eq_ok hvalid).1⟩

namespace IsDeclared

variable {l : Layout}

/-- Every block has its declaration. -/
theorem exists_declaration (h : l.IsDeclared) {b : Block} (hb : b ∈ l.blocks) :
    ∃ p ∈ l.schema.tables, p.signature = b.signature ∧
      p.domains.map l.domains.getOrEmpty = b.domains := by
  have hmem := List.mem_map_of_mem (f := fun b : Block => (b.signature, b.domains)) hb
  rw [h.blocks_eq, List.mem_map] at hmem
  obtain ⟨p, hp, heq⟩ := hmem
  exact ⟨p, hp, (Prod.mk.inj heq).1, (Prod.mk.inj heq).2⟩

/-- The domains of blocks belong to the theory. -/
theorem mem_all (h : l.IsDeclared) {b : Block} (hb : b ∈ l.blocks) {d : Domain}
    (hd : d ∈ b.domains) : d ∈ l.domains.all := by
  obtain ⟨p, hp, -, hdomains⟩ := h.exists_declaration hb
  rw [← hdomains] at hd
  obtain ⟨name, hname, rfl⟩ := List.mem_map.mp hd
  exact h.domain_mem p hp name hname

theorem length_domains (h : l.IsDeclared) {b : Block} (hb : b ∈ l.blocks) :
    b.domains.length = b.signature.arity := by
  obtain ⟨p, -, hsignature, hdomains⟩ := h.exists_declaration hb
  rw [← hsignature, ← hdomains, List.length_map]
  rfl

/-- Every declaration has its block. -/
theorem exists_block (h : l.IsDeclared) {p : PredicateDecl} (hp : p ∈ l.schema.tables) :
    ∃ b ∈ l.blocks, b.signature = p.signature ∧
      b.domains = p.domains.map l.domains.getOrEmpty := by
  have hmem := List.mem_map_of_mem
    (f := fun p : PredicateDecl => (p.signature, p.domains.map l.domains.getOrEmpty)) hp
  rw [← h.blocks_eq, List.mem_map] at hmem
  obtain ⟨b, hb, heq⟩ := hmem
  exact ⟨b, hb, (Prod.mk.inj heq).1, (Prod.mk.inj heq).2⟩

theorem nodup_blocks (h : l.IsDeclared) : (l.blocks.map Block.signature).Nodup := by
  have hsignatures := congrArg (List.map Prod.fst) h.blocks_eq
  rw [List.map_map, List.map_map] at hsignatures
  show (l.blocks.map fun b => b.signature).Nodup
  exact (hsignatures : l.blocks.map (fun b => b.signature) = _) ▸ h.nodup_tables

/-- Functions differ in their signatures, because their auxiliary predicates do. -/
theorem nodup_functions (h : l.IsDeclared) :
    (l.schema.functions.map FunctionDecl.signature).Nodup := by
  have hnodup := h.nodup_tables
  rw [Schema.tables, List.map_append, List.nodup_append, List.map_map] at hnodup
  apply List.Nodup.of_map fun s : Signature => (⟨"AUX" ++ s.symbol, s.arity + 1⟩ : Signature)
  rw [List.map_map]
  exact hnodup.2.1

end IsDeclared

/-! ### Blocks that do not wrap -/

/-- Blocks that begin before the last word lie end to end, and none of them wraps. -/
theorem tiles_of_first_lt {domains : Domains} {first : UInt32} {ps : List PredicateDecl}
    {blocks : List Block} (h : buildBlocks domains first ps = .ok blocks)
    (hnonempty : ∀ p ∈ ps, ∀ name ∈ p.domains, ∀ d, domains.require name = .ok d → 0 < d.size)
    (hfirst : ∀ b ∈ blocks, b.first.toNat + 1 < 4294967296) :
    Tiles first.toNat blocks ∧ ∀ b ∈ blocks, b.IsPositional := by
  induction ps generalizing first blocks with
  | nil =>
    cases h
    exact ⟨trivial, by simp⟩
  | cons p ps ih =>
    obtain ⟨b, hb, h⟩ := Except.bind_eq_ok_iff.mp h
    obtain ⟨rest, hrest, rfl⟩ := Except.map_eq_ok_iff.mp h
    have hlt : first.toNat + 1 < 4294967296 :=
      Block.first_of_build hb ▸ hfirst b List.mem_cons_self
    obtain ⟨hpositional, -, hstart, -⟩ :=
      Block.isPositional_of_build hb (hnonempty p List.mem_cons_self) hlt
    obtain ⟨htiles, hall⟩ := ih hrest (fun q hq => hnonempty q (List.mem_cons_of_mem p hq))
      fun c hc => hfirst c (List.mem_cons_of_mem b hc)
    refine ⟨⟨by rw [hstart], ?_⟩, ?_⟩
    · rw [hpositional.toNat_stop, ← hpositional.toNat_size, hstart] at htiles
      exact htiles
    · intro c hc
      rcases List.mem_cons.mp hc with rfl | hc
      · exact hpositional
      · exact hall c hc

/-- If all blocks end at `2 ^ 31` at the latest, they begin there at the latest. -/
theorem first_le_of_stop_le {domains : Domains} {first : UInt32} {ps : List PredicateDecl}
    {blocks : List Block} (h : buildBlocks domains first ps = .ok blocks)
    (hfirst : first.toNat ≤ 2147483648) (hstop : ∀ b ∈ blocks, b.stop.toNat ≤ 2147483648) :
    ∀ b ∈ blocks, b.first.toNat ≤ 2147483648 := by
  induction ps generalizing first blocks with
  | nil =>
    cases h
    simp
  | cons p ps ih =>
    obtain ⟨b, hb, h⟩ := Except.bind_eq_ok_iff.mp h
    obtain ⟨rest, hrest, rfl⟩ := Except.map_eq_ok_iff.mp h
    intro c hc
    rcases List.mem_cons.mp hc with rfl | hc
    · rw [Block.first_of_build hb]
      exact hfirst
    · exact ih hrest (hstop b List.mem_cons_self)
        (fun c hc => hstop c (List.mem_cons_of_mem b hc)) c hc

theorem isLaidOut_of_first_lt {schema : Schema} {domains : Domains} {l : Layout}
    (h : build schema domains = .ok l) (hfirst : ∀ b ∈ l.blocks, b.first.toNat + 1 < 4294967296) :
    l.IsLaidOut := by
  have hdeclared := isDeclared_of_build h
  obtain ⟨⟨⟩, hvalid, h⟩ := Except.bind_eq_ok_iff.mp h
  obtain ⟨blocks, hblocks, h⟩ := Except.bind_eq_ok_iff.mp h
  cases h
  obtain ⟨-, hall⟩ := Schema.checkTables_eq_ok hvalid
  obtain ⟨htiles, hpositional⟩ := tiles_of_first_lt hblocks (fun p hp => (hall p hp).2) hfirst
  exact ⟨htiles, hpositional, hdeclared.nodup_blocks⟩

theorem isLaidOut_of_stop_le {schema : Schema} {domains : Domains} {l : Layout}
    (h : build schema domains = .ok l) (hstop : ∀ b ∈ l.blocks, b.stop.toNat ≤ 2147483648) :
    l.IsLaidOut := by
  refine isLaidOut_of_first_lt h fun b hb => ?_
  obtain ⟨⟨⟩, -, h⟩ := Except.bind_eq_ok_iff.mp h
  obtain ⟨blocks, hblocks, h⟩ := Except.bind_eq_ok_iff.mp h
  cases h
  have hle := first_le_of_stop_le hblocks (by decide) hstop b hb
  omega

end Layout

/-! ### Ids of tuples -/

namespace Block

variable {b : Block}

/-- A block that was built is positional, provided that some tuple has an id. -/
theorem isPositional_of_encodeIndices {domains : Domains} {first : UInt32} {p : PredicateDecl}
    (h : build domains first p = .ok b)
    (hnonempty : ∀ name ∈ p.domains, ∀ d, domains.require name = .ok d → 0 < d.size)
    {indices : List Nat} {id : AtomId} (hid : b.encodeIndices indices = some id) :
    b.IsPositional := by
  by_cases hfirst : first.toNat + 1 < 4294967296
  · exact (isPositional_of_build h hnonempty hfirst).1
  · -- the last word leaves room for an atom without arguments only, and it is too large for an id
    exfalso
    obtain ⟨⟨ds, weights, total⟩, hmeasure, h⟩ := Except.bind_eq_ok_iff.mp h
    cases h
    obtain ⟨-, -, -, hlast⟩ := measure_eq_ok hmeasure
    rcases hlast with ⟨-, rfl⟩ | hlast
    · rw [encodeIndices] at hid
      split_ifs at hid
      obtain ⟨offset, hoffset, hid⟩ := Option.bind_eq_some_iff.mp hid
      cases hoffset
      have hnumber : id.number = (first + 0).toNat := AtomId.number_of_ofNat? hid
      have hlt := id.lt
      rw [UInt32.add_zero] at hnumber
      omega
    · omega

/-- In a block of ids of atoms, every tuple of constants has its id. -/
theorem exists_encodeIndices (h : b.IsPositional) (hfirst : 1 ≤ b.first.toNat)
    (hstop : b.stop.toNat ≤ 2147483648) {indices : List Nat}
    (hindices : MixedRadix.IsNumeral b.radices indices) :
    ∃ id, b.encodeIndices indices = some id := by
  have hvalue := MixedRadix.value_lt_count hindices
  rw [h.toNat_stop] at hstop
  exact ⟨⟨b.first.toNat + MixedRadix.value b.radices indices, by omega, by omega⟩,
    (encodeIndices_eq_some_iff h).mpr ⟨hindices, rfl⟩⟩

theorem exists_decode (h : b.IsPositional) (hfirst : 1 ≤ b.first.toNat)
    (hstop : b.stop.toNat ≤ 2147483648) {indices : List Nat}
    (hindices : MixedRadix.IsNumeral b.radices indices) :
    ∃ id, b.contains id.number = true ∧
      b.decode id = .ok (List.zipWith Domain.symbol b.domains indices) := by
  obtain ⟨id, hencode⟩ := exists_encodeIndices h hfirst hstop hindices
  have hid := (encodeIndices_eq_some_iff_decodeIndices h).mp hencode
  exact ⟨id, (decodeIndices_eq_ok_iff.mp hid).1, Except.bind_eq_ok_iff.mpr ⟨indices, hid, rfl⟩⟩

end Block

namespace Layout

theorem exists_build_of_mem {domains : Domains} {first : UInt32} {ps : List PredicateDecl}
    {blocks : List Block} (h : buildBlocks domains first ps = .ok blocks) {b : Block}
    (hb : b ∈ blocks) : ∃ p ∈ ps, ∃ start, Block.build domains start p = .ok b := by
  induction ps generalizing first blocks with
  | nil =>
    cases h
    cases hb
  | cons p ps ih =>
    obtain ⟨c, hc, h⟩ := Except.bind_eq_ok_iff.mp h
    obtain ⟨rest, hrest, rfl⟩ := Except.map_eq_ok_iff.mp h
    rcases List.mem_cons.mp hb with rfl | hb
    · exact ⟨p, List.mem_cons_self, first, hc⟩
    · obtain ⟨q, hq, hbuild⟩ := ih hrest hb
      exact ⟨q, List.mem_cons_of_mem p hq, hbuild⟩

/-- A block of a layout that was built comes from a declaration over domains that are not empty. -/
theorem exists_build {schema : Schema} {domains : Domains} {l : Layout}
    (h : build schema domains = .ok l) {b : Block} (hb : b ∈ l.blocks) :
    ∃ p start, Block.build domains start p = .ok b ∧
      ∀ name ∈ p.domains, ∀ d, domains.require name = .ok d → 0 < d.size := by
  obtain ⟨⟨⟩, hvalid, h⟩ := Except.bind_eq_ok_iff.mp h
  obtain ⟨blocks, hblocks, h⟩ := Except.bind_eq_ok_iff.mp h
  cases h
  obtain ⟨-, hall⟩ := Schema.checkTables_eq_ok hvalid
  obtain ⟨p, hp, start, hbuild⟩ := exists_build_of_mem hblocks hb
  exact ⟨p, start, hbuild, (hall p hp).2⟩

theorem isPositional_of_encodeIndices {schema : Schema} {domains : Domains} {l : Layout}
    (h : build schema domains = .ok l) {b : Block} (hb : b ∈ l.blocks) {indices : List Nat}
    {id : AtomId} (hid : b.encodeIndices indices = some id) : b.IsPositional := by
  obtain ⟨p, start, hbuild, hnonempty⟩ := exists_build h hb
  exact Block.isPositional_of_encodeIndices hbuild hnonempty hid

/-- In a layout that was built, the ids of tuples belong to their blocks. -/
theorem contains_of_encodeIndices {schema : Schema} {domains : Domains} {l : Layout}
    (h : build schema domains = .ok l) {b : Block} (hb : b ∈ l.blocks) {indices : List Nat}
    {id : AtomId} (hid : b.encodeIndices indices = some id) : b.contains id.number = true := by
  have hpositional := isPositional_of_encodeIndices h hb hid
  rw [Block.encodeIndices_eq_some_iff_decodeIndices hpositional] at hid
  exact (Block.decodeIndices_eq_ok_iff.mp hid).1

/-- Whether blocks lie end to end, one for each declaration, and those that have arguments end at
`2 ^ 31` at the latest. -/
structure IsRegular (l : Layout) : Prop extends l.IsLaidOut, l.IsDeclared where
  stop_le_of_domains : ∀ b ∈ l.blocks, b.domains ≠ [] → b.stop.toNat ≤ 2147483648

/-- Whether every tuple of constants in the domains of a declaration has its id. -/
structure IsComplete (l : Layout) : Prop extends l.IsLaidOut, l.IsDeclared where
  stop_le : ∀ b ∈ l.blocks, b.stop.toNat ≤ 2147483648

theorem IsComplete.isRegular {l : Layout} (h : l.IsComplete) : l.IsRegular :=
  { h with stop_le_of_domains := fun b hb _ => h.stop_le b hb }

theorem isComplete_of_build {schema : Schema} {domains : Domains} {l : Layout}
    (h : build schema domains = .ok l) (hstop : ∀ b ∈ l.blocks, b.stop.toNat ≤ 2147483648) :
    l.IsComplete :=
  { isLaidOut_of_stop_le h hstop, isDeclared_of_build h with stop_le := hstop }

/-- A layout that was built is regular, unless the end of a block has wrapped around. -/
theorem isRegular_of_build {schema : Schema} {domains : Domains} {l : Layout}
    (h : build schema domains = .ok l) (hends : ∀ b ∈ l.blocks, b.first < b.stop) :
    l.IsRegular := by
  have hfirst : ∀ b ∈ l.blocks, b.first.toNat + 1 < 4294967296 := by
    intro b hb
    have hlt := UInt32.lt_iff_toNat_lt.mp (hends b hb)
    have hword := b.stop.toNat_lt
    omega
  have hlaid := isLaidOut_of_first_lt h hfirst
  refine { hlaid, isDeclared_of_build h with stop_le_of_domains := fun b hb hdomains => ?_ }
  rw [(hlaid.positional b hb).toNat_stop]
  obtain ⟨⟨⟩, -, h⟩ := Except.bind_eq_ok_iff.mp h
  obtain ⟨blocks, hblocks, h⟩ := Except.bind_eq_ok_iff.mp h
  cases h
  obtain ⟨p, -, start, hbuild⟩ := exists_build_of_mem hblocks hb
  -- the last argument was measured against the end
  obtain ⟨⟨ds, weights, total⟩, hmeasure, hbuild⟩ := Except.bind_eq_ok_iff.mp hbuild
  cases hbuild
  obtain ⟨-, htotal, -, hlast⟩ := Block.measure_eq_ok hmeasure
  rw [Nat.one_mul] at htotal
  rcases hlast with ⟨-, hnone⟩ | hlast
  · exact absurd hnone hdomains
  · rw [htotal] at hlast
    exact hlast

/-- Every tuple of constants in the domains of a declaration is encoded, if the block of the
declaration ends at `2 ^ 31` at the latest. -/
theorem IsLaidOut.exists_encode {l : Layout} (h : l.IsLaidOut) {b : Block} (hb : b ∈ l.blocks)
    (hstop : b.stop.toNat ≤ 2147483648) {indices : List Nat}
    (hindices : MixedRadix.IsNumeral b.radices indices) :
    ∃ id, b.contains id.number = true ∧
      l.encode b.signature (List.zipWith Domain.symbol b.domains indices) = .ok id := by
  have hfirst := ((h.tiles.bounds h.positional).2 b hb).1
  obtain ⟨id, hcontains, hdecode⟩ :=
    Block.exists_decode (h.positional b hb) hfirst hstop hindices
  exact ⟨id, hcontains, h.encode_eq_ok_iff.mpr ⟨b, hb, rfl, hdecode⟩⟩

end Layout

end LogicNetwork
