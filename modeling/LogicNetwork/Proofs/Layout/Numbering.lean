import LogicNetwork.Proofs.Layout.Blocks
import LogicNetwork.Proofs.Lists

/-!
# Ids of ground atoms

A layout that was built numbers its ground atoms from one on without gaps
(`Layout.isNumbering_of_build`): the blocks lie one after the other in the order of the
declarations, an id belongs to one of them, and encoding and decoding are inverse to each other.

A block with arguments ends at `2 ^ 31` at the latest, because this is checked; a block without
arguments is not checked and adds one id.  So with less than `2 ^ 31` declarations no end wraps
(`Layout.buildBlocks_eq_ok`), and everything else follows from the blocks being positional and
laid end to end (`Layout.IsLaidOut`).
-/

namespace LogicNetwork

/-! ### Checked declarations -/

namespace Schema

theorem pos_size_of_checkDomain {domains : Domains} {name : String}
    (h : checkDomain domains name = .ok ()) {d : Domain} (hd : domains.require name = .ok d) :
    0 < d.size := by
  obtain ⟨e, he, h⟩ := Except.bind_eq_ok_iff.mp h
  rw [Except.mapError_eq_ok_iff, hd] at he
  cases he
  split_ifs at h with hzero
  exact Nat.pos_of_ne_zero hzero

/-- Checked tables have signatures of their own and domains that are not empty. -/
theorem checkTables_eq_ok {domains : Domains} {seen : List Signature} {ps : List PredicateDecl}
    (h : checkTables domains seen ps = .ok ()) :
    (ps.map PredicateDecl.signature).Nodup ∧ ∀ p ∈ ps, p.signature ∉ seen ∧
      ∀ name ∈ p.domains, ∀ d, domains.require name = .ok d → 0 < d.size := by
  induction ps generalizing seen with
  | nil => exact ⟨List.nodup_nil, by simp⟩
  | cons p ps ih =>
    rw [checkTables] at h
    dsimp only at h
    split_ifs at h with hseen
    · cases h
    · obtain ⟨⟨⟩, hdomains, h⟩ := Except.bind_eq_ok_iff.mp h
      obtain ⟨hnodup, hall⟩ := ih h
      have hfresh : p.signature ∉ seen := by simpa using hseen
      refine ⟨?_, ?_⟩
      · rw [List.map_cons, List.nodup_cons]
        refine ⟨?_, hnodup⟩
        intro hmem
        obtain ⟨q, hq, heq⟩ := List.mem_map.mp hmem
        exact (hall q hq).1 (heq ▸ List.mem_cons_self)
      · intro q hq
        rcases List.mem_cons.mp hq with rfl | hq
        · refine ⟨hfresh, fun name hname d hd => ?_⟩
          exact pos_size_of_checkDomain (Except.forM_eq_ok_iff.mp hdomains name hname) hd
        · obtain ⟨hq', hpos⟩ := hall q hq
          exact ⟨fun hmem => hq' (List.mem_cons_of_mem _ hmem), hpos⟩

end Schema

namespace Layout

/-! ### Blocks end to end -/

/-- Whether blocks lie one after the other from an id on. -/
def Tiles : Nat → List Block → Prop
  | _, [] => True
  | first, b :: rest => b.first.toNat = first ∧ Tiles (first + b.size.toNat) rest

/-- One past the last id of blocks that begin at an id. -/
def stopFrom (first : Nat) (blocks : List Block) : Nat :=
  (blocks.getLast?.map fun b => b.stop.toNat).getD first

theorem stopFrom_cons (first : Nat) (b : Block) (rest : List Block) :
    stopFrom first (b :: rest) = stopFrom b.stop.toNat rest := by
  unfold stopFrom
  rw [List.getLast?_cons]
  cases rest.getLast? <;> rfl

namespace Tiles

variable {first : Nat} {blocks : List Block} {b : Block} {id : Nat}

theorem tail (hpositional : b.IsPositional) (h : Tiles first (b :: blocks)) :
    Tiles b.stop.toNat blocks := by
  obtain ⟨hfirst, hrest⟩ := h
  rw [hpositional.toNat_stop, ← hpositional.toNat_size, hfirst]
  exact hrest

theorem bounds (h : Tiles first blocks) (hpositional : ∀ b ∈ blocks, b.IsPositional) :
    first ≤ stopFrom first blocks ∧
      ∀ b ∈ blocks, first ≤ b.first.toNat ∧ b.stop.toNat ≤ stopFrom first blocks := by
  induction blocks generalizing first with
  | nil => exact ⟨Nat.le_refl first, by simp⟩
  | cons b blocks ih =>
    have hb := hpositional b List.mem_cons_self
    have hlt := hb.first_lt_stop
    obtain ⟨hstop, hall⟩ := ih (h.tail hb) fun c hc => hpositional c (List.mem_cons_of_mem b hc)
    rw [stopFrom_cons]
    rw [h.1] at hlt
    refine ⟨by omega, fun c hc => ?_⟩
    rcases List.mem_cons.mp hc with rfl | hc
    · exact ⟨Nat.le_of_eq h.1.symm, hstop⟩
    · obtain ⟨hlow, hhigh⟩ := hall c hc
      exact ⟨by omega, hhigh⟩

/-- The first block that ends above an id of a block is that block. -/
theorem find?_eq_some (h : Tiles first blocks) (hpositional : ∀ b ∈ blocks, b.IsPositional)
    (hb : b ∈ blocks) (hid : b.contains id = true) :
    blocks.find? (fun b => id < b.stop.toNat) = some b := by
  induction blocks generalizing first with
  | nil => cases hb
  | cons c blocks ih =>
    have hc := hpositional c List.mem_cons_self
    have hrest := fun d hd => hpositional d (List.mem_cons_of_mem c hd)
    rw [List.find?_cons]
    have hrange := ((hpositional b hb).contains_iff).mp hid
    rw [← (hpositional b hb).toNat_stop] at hrange
    rcases List.mem_cons.mp hb with rfl | hb
    · rw [decide_eq_true hrange.2]
    · -- the head ends before the block begins
      have hlow := (((h.tail hc).bounds hrest).2 b hb).1
      rw [decide_eq_false (by omega)]
      exact ih (h.tail hc) hrest hb

/-- The ids from the first up to the end of the blocks are covered. -/
theorem exists_contains (h : Tiles first blocks) (hpositional : ∀ b ∈ blocks, b.IsPositional)
    (hlow : first ≤ id) (hhigh : id < stopFrom first blocks) :
    ∃ b ∈ blocks, b.contains id = true := by
  induction blocks generalizing first with
  | nil => exact absurd hhigh (Nat.not_lt.mpr hlow)
  | cons b blocks ih =>
    have hb := hpositional b List.mem_cons_self
    rw [stopFrom_cons] at hhigh
    by_cases hid : id < b.stop.toNat
    · refine ⟨b, List.mem_cons_self, ?_⟩
      rw [hb.contains_iff, ← hb.toNat_stop, h.1]
      exact ⟨hlow, hid⟩
    · obtain ⟨c, hc, hcontains⟩ := ih (h.tail hb)
        (fun d hd => hpositional d (List.mem_cons_of_mem b hd)) (Nat.not_lt.mp hid) hhigh
      exact ⟨c, List.mem_cons_of_mem b hc, hcontains⟩

end Tiles

/-! ### Building -/

/-- Building lays positional blocks end to end, one for each declaration.  The words do not wrap,
because a block ends at `2 ^ 31` at the latest or has a single id. -/
theorem buildBlocks_eq_ok {domains : Domains} {first : UInt32} {ps : List PredicateDecl}
    {blocks : List Block} (h : buildBlocks domains first ps = .ok blocks)
    (hnonempty : ∀ p ∈ ps, ∀ name ∈ p.domains, ∀ d, domains.require name = .ok d → 0 < d.size)
    (hfew : ps.length < 2147483648) (hfirst : first.toNat + ps.length < 4294967296) :
    Tiles first.toNat blocks ∧ (∀ b ∈ blocks, b.IsPositional) ∧
      blocks.map Block.signature = ps.map PredicateDecl.signature := by
  induction ps generalizing first blocks with
  | nil =>
    cases h
    exact ⟨trivial, by simp, rfl⟩
  | cons p ps ih =>
    obtain ⟨b, hb, h⟩ := Except.bind_eq_ok_iff.mp h
    obtain ⟨rest, hrest, rfl⟩ := Except.map_eq_ok_iff.mp h
    rw [List.length_cons] at hfew hfirst
    obtain ⟨hpositional, hsignature, hstart, hstop⟩ :=
      Block.isPositional_of_build hb (hnonempty p List.mem_cons_self) (by omega)
    obtain ⟨htiles, hall, hsignatures⟩ := ih hrest
      (fun q hq => hnonempty q (List.mem_cons_of_mem p hq)) (by omega) (by omega)
    refine ⟨⟨by rw [hstart], ?_⟩, ?_, ?_⟩
    · rw [hpositional.toNat_stop, ← hpositional.toNat_size, hstart] at htiles
      exact htiles
    · intro c hc
      rcases List.mem_cons.mp hc with rfl | hc
      · exact hpositional
      · exact hall c hc
    · rw [List.map_cons, List.map_cons, hsignature, hsignatures]

/-- Whether positional blocks of different signatures lie end to end from id one on. -/
structure IsLaidOut (l : Layout) : Prop where
  tiles : Tiles 1 l.blocks
  positional : ∀ b ∈ l.blocks, b.IsPositional
  nodup : (l.blocks.map Block.signature).Nodup

theorem isLaidOut_of_build {schema : Schema} {domains : Domains} {l : Layout}
    (h : build schema domains = .ok l)
    (hfew : schema.predicates.length + schema.functions.length < 2147483648) :
    l.IsLaidOut ∧ l.blocks.map Block.signature = schema.tables.map PredicateDecl.signature := by
  obtain ⟨⟨⟩, hvalid, h⟩ := Except.bind_eq_ok_iff.mp h
  obtain ⟨blocks, hblocks, h⟩ := Except.bind_eq_ok_iff.mp h
  cases h
  obtain ⟨hnodup, hall⟩ := Schema.checkTables_eq_ok hvalid
  have hlength : schema.tables.length < 2147483648 := by
    rw [Schema.tables, List.length_append, List.length_map]
    exact hfew
  have hone : (1 : UInt32).toNat = 1 := rfl
  obtain ⟨htiles, hpositional, hsignatures⟩ :=
    buildBlocks_eq_ok hblocks (fun p hp => (hall p hp).2) hlength (by omega)
  refine ⟨⟨?_, hpositional, ?_⟩, hsignatures⟩
  · rwa [hone] at htiles
  · show (blocks.map Block.signature).Nodup
    rwa [hsignatures]

/-! ### Looking up -/

section Lookup

variable {l : Layout} {s : Signature} {b : Block} {constants : List String} {id : AtomId}

theorem block_eq_ok_iff_block? : l.block s = .ok b ↔ l.block? s = some b := by
  unfold block
  cases l.block? s <;> simp

theorem mem_of_block? (h : l.block? s = some b) : b ∈ l.blocks ∧ b.signature = s :=
  ⟨List.mem_of_find?_eq_some h, by simpa using List.find?_some h⟩

namespace IsLaidOut

theorem block_eq_ok_iff (h : l.IsLaidOut) :
    l.block s = .ok b ↔ b ∈ l.blocks ∧ b.signature = s := by
  rw [block_eq_ok_iff_block?]
  refine ⟨mem_of_block?, ?_⟩
  rintro ⟨hb, rfl⟩
  exact find?_key_eq_some h.nodup hb

theorem owner?_eq_some_iff (h : l.IsLaidOut) :
    l.owner? id = some b ↔ b ∈ l.blocks ∧ b.contains id.number = true := by
  rw [owner?, Option.filter_eq_some_iff]
  constructor
  · rintro ⟨hfind, hcontains⟩
    exact ⟨List.mem_of_find?_eq_some hfind, hcontains⟩
  · rintro ⟨hb, hcontains⟩
    exact ⟨h.tiles.find?_eq_some h.positional hb hcontains, hcontains⟩

theorem encode_eq_ok_iff (h : l.IsLaidOut) :
    l.encode s constants = .ok id ↔
      ∃ b ∈ l.blocks, b.signature = s ∧ b.decode id = .ok constants := by
  rw [encode, Except.bind_eq_ok_iff]
  refine exists_congr fun b => ?_
  rw [h.block_eq_ok_iff, and_assoc]
  exact and_congr_right fun hb => and_congr_right fun _ =>
    Block.encode_eq_ok_iff (h.positional b hb)

theorem decode_eq_ok_iff (h : l.IsLaidOut) :
    l.decode s id = .ok constants ↔
      ∃ b ∈ l.blocks, b.signature = s ∧ b.decode id = .ok constants := by
  rw [decode, Except.bind_eq_ok_iff]
  refine exists_congr fun b => ?_
  rw [h.block_eq_ok_iff, and_assoc]

theorem decodeAtom_eq_ok_iff (h : l.IsLaidOut) :
    l.decodeAtom id = .ok (s, constants) ↔
      ∃ b ∈ l.blocks, b.signature = s ∧ b.decode id = .ok constants := by
  have howner : l.decodeAtom id = .ok (s, constants) ↔
      ∃ b, l.owner? id = some b ∧ b.signature = s ∧ b.decode id = .ok constants := by
    rw [decodeAtom]
    cases l.owner? id with
    | none => simp
    | some b => simp [Except.map_eq_ok_iff, and_comm]
  rw [howner]
  refine exists_congr fun b => ?_
  rw [h.owner?_eq_some_iff, and_assoc]
  refine and_congr_right fun hb => and_iff_right_of_imp ?_
  -- only ids of the block are decoded
  rintro ⟨-, hdecode⟩
  obtain ⟨indices, hindices, -⟩ := Except.bind_eq_ok_iff.mp hdecode
  exact (Block.decodeIndices_eq_ok_iff.mp hindices).1

theorem atomCount_eq (h : l.IsLaidOut) : l.atomCount + 1 = stopFrom 1 l.blocks := by
  have hle := (h.tiles.bounds h.positional).1
  unfold atomCount stopFrom at *
  cases hlast : l.blocks.getLast? with
  | none => rfl
  | some b =>
    rw [hlast] at hle
    exact Nat.sub_add_cancel hle

end IsLaidOut

end Lookup

/-! ### Numberings -/

/-- Whether a layout numbers the ground atoms of its schema. -/
structure IsNumbering (l : Layout) : Prop where
  /-- An id decodes to what was encoded. -/
  decode_of_encode : ∀ s constants id, l.encode s constants = .ok id →
    l.decode s id = .ok constants ∧ l.decodeAtom id = .ok (s, constants)
  /-- An id up to the number of atoms is in one block, and encodes what it decodes to. -/
  encode_of_decode : ∀ id : AtomId, id.number ≤ l.atomCount →
    ∃ b ∈ l.blocks, b.contains id.number = true ∧
      (∀ c ∈ l.blocks, c.contains id.number = true → c = b) ∧ l.owner? id = some b ∧
      ∃ constants, l.decodeAtom id = .ok (b.signature, constants) ∧
        l.encode b.signature constants = .ok id
  owner?_eq_none : ∀ id : AtomId, l.atomCount < id.number → l.owner? id = none
  /-- No two atoms share an id. -/
  encode_injective : ∀ s constants t others id, l.encode s constants = .ok id →
    l.encode t others = .ok id → s = t ∧ constants = others
  tiles : Tiles 1 l.blocks
  /-- No sum or digit on the way to an id reaches `2 ^ 32`, also where a later digit is out of
  range, and the id is the sum. -/
  exact : ∀ b ∈ l.blocks, ∀ indices : List Nat,
    (∀ k, MixedRadix.IsNumeral (b.radices.take k) (indices.take k) →
      (∀ i ∈ indices.take k, i < 4294967296) ∧
        b.first.toNat + Block.exactOffset (b.weights.take k) (indices.take k) < 4294967296) ∧
    ∀ id, b.encodeIndices indices = some id →
      id.number = b.first.toNat + Block.exactOffset b.weights indices

/-- A layout that was built has a block for every declaration, in their order, and numbers the
ground atoms. -/
theorem isNumbering_of_build {schema : Schema} {domains : Domains} {l : Layout}
    (h : build schema domains = .ok l)
    (hfew : schema.predicates.length + schema.functions.length < 2147483648) :
    l.blocks.map Block.signature = schema.tables.map PredicateDecl.signature ∧
      l.IsNumbering := by
  obtain ⟨hl, hsignatures⟩ := isLaidOut_of_build h hfew
  have hcount := hl.atomCount_eq
  have hbounds := (hl.tiles.bounds hl.positional).2
  refine ⟨hsignatures, ?_, ?_, ?_, ?_, hl.tiles, ?_⟩
  · intro s constants id hid
    have hblock := hl.encode_eq_ok_iff.mp hid
    exact ⟨hl.decode_eq_ok_iff.mpr hblock, hl.decodeAtom_eq_ok_iff.mpr hblock⟩
  · -- the blocks cover the id, and the one that does owns it
    intro id hid
    have hstop : id.number < stopFrom 1 l.blocks := by omega
    obtain ⟨b, hb, hcontains⟩ := hl.tiles.exists_contains hl.positional id.pos hstop
    have howner := hl.owner?_eq_some_iff.mpr ⟨hb, hcontains⟩
    have hdecode : ∃ constants, b.decode id = .ok constants :=
      ⟨_, Except.bind_eq_ok_iff.mpr
        ⟨_, Block.decodeIndices_eq_ok_iff.mpr ⟨hcontains, rfl⟩, rfl⟩⟩
    obtain ⟨constants, hconstants⟩ := hdecode
    refine ⟨b, hb, hcontains, ?_, howner, constants, ?_, ?_⟩
    · intro c hc hid
      have hother := hl.owner?_eq_some_iff.mpr ⟨hc, hid⟩
      exact Option.some.inj (hother.symm.trans howner)
    · exact hl.decodeAtom_eq_ok_iff.mpr ⟨b, hb, rfl, hconstants⟩
    · exact hl.encode_eq_ok_iff.mpr ⟨b, hb, rfl, hconstants⟩
  · -- no block goes beyond the end of the last
    intro id hid
    rw [Option.eq_none_iff_forall_ne_some]
    intro b hb
    obtain ⟨hmem, hcontains⟩ := hl.owner?_eq_some_iff.mp hb
    have hstop := (hbounds b hmem).2
    rw [(hl.positional b hmem).contains_iff, ← (hl.positional b hmem).toNat_stop] at hcontains
    omega
  · -- both atoms are what the id decodes to
    intro s constants t others id hs ht
    have hs := hl.decodeAtom_eq_ok_iff.mpr (hl.encode_eq_ok_iff.mp hs)
    have ht := hl.decodeAtom_eq_ok_iff.mpr (hl.encode_eq_ok_iff.mp ht)
    rw [hs] at ht
    cases ht
    exact ⟨rfl, rfl⟩
  · intro b hb indices
    have hb := hl.positional b hb
    refine ⟨fun k hk => ⟨fun i hi => hb.lt_of_mem_take hk hi, hb.exactOffset_take_lt hk⟩, ?_⟩
    intro id hid
    obtain ⟨hnumeral, hnumber⟩ := (Block.encodeIndices_eq_some_iff hb).mp hid
    rw [hb.exactOffset_eq hnumeral, hnumber]

/-! #### A calendar -/

namespace Calendar

/-- The days of a short week, one of them named twice. -/
def domains : Domains :=
  Domains.ofList [("day", ["Monday", "Tuesday", "Monday"])]

/-- Rain on a day, a holiday, a plan between two days, and the day after a day. -/
def schema : Schema :=
  ⟨[⟨"Rain", ["day"]⟩, ⟨"Holiday", []⟩, ⟨"Plan", ["day", "day"]⟩], [⟨"next", "day", ["day"]⟩]⟩

/-- The days, in the order of their first occurrence. -/
def day : Domain :=
  .ofList "day" ["Monday", "Tuesday", "Monday"]

theorem require_day : domains.require "day" = .ok day :=
  rfl

theorem size_day : day.size = 2 := by
  simp [day, Domain.size, Domain.ofList, distinct, distinctFrom]

/-- The ids of rain. -/
def rain : Block :=
  ⟨⟨"Rain", 1⟩, [day], [1], 1, 2⟩

/-- The ids of holidays. -/
def holiday : Block :=
  ⟨⟨"Holiday", 0⟩, [], [], 3, 1⟩

/-- The ids of plans. -/
def plan : Block :=
  ⟨⟨"Plan", 2⟩, [day, day], [1, 2], 4, 4⟩

/-- The ids of days and the days after them. -/
def next : Block :=
  ⟨⟨"AUXnext", 2⟩, [day, day], [1, 2], 8, 4⟩

/-- The layout of the calendar. -/
def layout : Layout :=
  ⟨schema, domains, [rain, holiday, plan, next]⟩

theorem build_eq : build schema domains = .ok layout := by
  have hvalid : schema.validate domains = .ok () := by
    simp [Schema.validate, Schema.tables, schema, FunctionDecl.auxiliary, Schema.checkTables,
      PredicateDecl.signature, Schema.checkDomain, require_day, size_day, Except.mapError,
      Bind.bind, Except.bind, pure, Except.pure]
  unfold build
  rw [hvalid]
  simp [Schema.tables, schema, FunctionDecl.auxiliary, PredicateDecl.signature, require_day,
    size_day, buildBlocks, Block.build, Block.measure, Block.stop, Except.mapError, Bind.bind,
    Except.bind, Except.map, layout, rain, holiday, plan, next]

theorem exists_build : ∃ l, build schema domains = .ok l ∧
    l.blocks.map (fun b => (b.first, b.size)) = [(1, 2), (3, 1), (4, 4), (8, 4)] :=
  ⟨layout, build_eq, rfl⟩

end Calendar

theorem isNumbering_of_build_calendar :
    ∃ l, build Calendar.schema Calendar.domains = .ok l ∧
      Calendar.schema.predicates.length + Calendar.schema.functions.length < 2147483648 ∧
      l.blocks.map (fun b => (b.signature.symbol, b.first, b.size)) =
        [("Rain", 1, 2), ("Holiday", 3, 1), ("Plan", 4, 4), ("AUXnext", 8, 4)] ∧
      l.IsNumbering := by
  obtain ⟨l, hl, hblocks⟩ := Calendar.exists_build
  have hfew : Calendar.schema.predicates.length + Calendar.schema.functions.length <
      2147483648 := by decide
  obtain ⟨hsignatures, hnumbering⟩ := isNumbering_of_build hl hfew
  refine ⟨l, hl, hfew, ?_, hnumbering⟩
  have hsymbols := congrArg (List.map Signature.symbol) hsignatures
  have hzip := congrArg₂ List.zip hsymbols hblocks
  rw [List.map_map, List.zip_map', List.map_map] at hzip
  exact hzip

end Layout

end LogicNetwork
