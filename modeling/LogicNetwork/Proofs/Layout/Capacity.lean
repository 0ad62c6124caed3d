import Mathlib.Algebra.Ring.Nat
import LogicNetwork.Proofs.Evidence.Names

/-!
# What fits into the ids

There are `2 ^ 31 - 1` ids.  A theory with no more ground atoms (`atomTotal`) has a layout, and one
without a layout has exhausted the ids (`Layout.exists_build_iff_fits`).

Blocks are measured argument by argument, which comes to the same as measuring them once, because
no domain is empty (`Block.measure_cases`).  Only predicates without arguments are not measured at
all.  So a layout has more ground atoms than there are ids just if the predicates before one of
these have taken them all (`Layout.exists_unmeasured`); its only atom cannot be encoded then.
-/

namespace LogicNetwork

/-! ### Ground atoms of declarations -/

/-- The number of tuples of constants of domains. -/
def Domains.tupleCount (ds : Domains) (names : List String) : Nat :=
  MixedRadix.count (names.map fun name => (ds.getOrEmpty name).size)

/-- The number of ground atoms of predicates. -/
def atomTotal (domains : Domains) (ps : List PredicateDecl) : Nat :=
  (ps.map fun p => domains.tupleCount p.domains).sum

/-- Whether names are those of domains that are not empty. -/
def Domains.Inhabit (ds : Domains) (names : List String) : Prop :=
  ∀ name ∈ names, ∃ d, ds.get? name = some d ∧ 0 < d.size

theorem atomTotal_cons (domains : Domains) (p : PredicateDecl) (ps : List PredicateDecl) :
    atomTotal domains (p :: ps) = domains.tupleCount p.domains + atomTotal domains ps := by
  rw [atomTotal, List.map_cons, List.sum_cons, atomTotal]

theorem atomTotal_append (domains : Domains) (ps qs : List PredicateDecl) :
    atomTotal domains (ps ++ qs) = atomTotal domains ps + atomTotal domains qs := by
  rw [atomTotal, List.map_append, List.sum_append, atomTotal, atomTotal]

theorem Domains.tupleCount_cons {ds : Domains} {name : String} {d : Domain}
    (hd : ds.get? name = some d) (names : List String) :
    ds.tupleCount (name :: names) = d.size * ds.tupleCount names := by
  rw [tupleCount, List.map_cons, MixedRadix.count, getOrEmpty_eq hd, tupleCount]

theorem Domains.Inhabit.tupleCount_pos {ds : Domains} {names : List String} (h : ds.Inhabit names) :
    0 < ds.tupleCount names := by
  rw [tupleCount, MixedRadix.count_pos_iff]
  intro r hr
  obtain ⟨name, hname, rfl⟩ := List.mem_map.mp hr
  obtain ⟨d, hd, hpos⟩ := h name hname
  rwa [getOrEmpty_eq hd]

/-- The domains that a checked schema names belong to the theory and are not empty. -/
theorem Schema.inhabit_of_validate {domains : Domains} {s : Schema}
    (h : s.validate domains = .ok ()) {p : PredicateDecl} (hp : p ∈ s.tables) :
    domains.Inhabit p.domains := by
  intro name hname
  obtain ⟨d, hd⟩ := exists_get?_of_checkTables h hp hname
  have hrequire := Domains.require_eq_ok_iff.mpr hd
  exact ⟨d, hd, ((checkTables_eq_ok h).2 p hp).2 name hname d hrequire⟩

/-! ### Measuring -/

namespace Block

variable {domains : Domains}

/-- Measuring succeeds if there is nothing to measure or the tuples fit, and otherwise ids are
exhausted. -/
theorem measure_cases (first tuples : Nat) {names : List String} (hnames : domains.Inhabit names) :
    ((∃ r, measure domains first tuples names = .ok r) ∧
      (names = [] ∨ first + tuples * domains.tupleCount names ≤ 2147483648)) ∨
    ((∃ n, 2147483648 < n ∧
        measure domains first tuples names = .error (.layout (.exhausted n))) ∧
      names ≠ [] ∧ 2147483648 < first + tuples * domains.tupleCount names) := by
  induction names generalizing tuples with
  | nil => exact .inl ⟨⟨_, rfl⟩, .inl rfl⟩
  | cons name names ih =>
    obtain ⟨d, hd, -⟩ := hnames name List.mem_cons_self
    have hrest : domains.Inhabit names :=
      fun other hother => hnames other (List.mem_cons_of_mem name hother)
    rw [measure, Domains.require_eq_ok_iff.mpr hd, Domains.tupleCount_cons hd, ← Nat.mul_assoc]
    dsimp only [Except.mapError, bind, Except.bind]
    by_cases hfull : 2147483648 < first + tuples * d.size
    · -- the arguments after this one only add tuples
      have hle := Nat.le_mul_of_pos_right (tuples * d.size) hrest.tupleCount_pos
      rw [if_pos hfull]
      exact .inr ⟨⟨_, hfull, rfl⟩, List.cons_ne_nil name names, by omega⟩
    · rw [if_neg hfull]
      rcases ih (tuples * d.size) hrest with
        ⟨⟨r, hr⟩, hlast⟩ | ⟨⟨n, hn, hfault⟩, -, hlast⟩
      · refine .inl ⟨⟨_, by rw [hr]⟩, .inr ?_⟩
        rcases hlast with rfl | hlast
        · show first + tuples * d.size * 1 ≤ 2147483648
          rw [Nat.mul_one]
          exact Nat.not_lt.mp hfull
        · exact hlast
      · exact .inr ⟨⟨n, hn, by rw [hfault]⟩, List.cons_ne_nil name names, hlast⟩

variable {first : UInt32} {p : PredicateDecl} {b : Block}

/-- A block is built if its predicate has no arguments or its atoms fit, and otherwise ids are
exhausted. -/
theorem build_cases (first : UInt32) (hnames : domains.Inhabit p.domains) :
    ((∃ b, build domains first p = .ok b) ∧
      (p.domains = [] ∨ first.toNat + domains.tupleCount p.domains ≤ 2147483648)) ∨
    ((∃ n, 2147483648 < n ∧ build domains first p = .error (.layout (.exhausted n))) ∧
      p.domains ≠ [] ∧ 2147483648 < first.toNat + domains.tupleCount p.domains) := by
  have hmeasure := measure_cases first.toNat 1 hnames
  rw [Nat.one_mul] at hmeasure
  rcases hmeasure with ⟨⟨r, hr⟩, hfits⟩ | ⟨⟨n, hn, hfault⟩, hfull⟩
  · exact .inl ⟨⟨_, Except.bind_eq_ok_iff.mpr ⟨r, hr, rfl⟩⟩, hfits⟩
  · exact .inr ⟨⟨n, hn, Except.bind_eq_error_iff.mpr (.inl hfault)⟩, hfull⟩

/-- A block ends behind as many ids as it has atoms. -/
theorem toNat_stop_of_build (h : build domains first p = .ok b) :
    b.stop.toNat = (first.toNat + domains.tupleCount p.domains) % 4294967296 := by
  obtain ⟨⟨ds, weights, total⟩, hmeasure, h⟩ := Except.bind_eq_ok_iff.mp h
  cases h
  obtain ⟨-, htotal, -, -⟩ := measure_eq_ok hmeasure
  have hcount : total = domains.tupleCount p.domains := by
    rw [htotal, Nat.one_mul, domains_of_measure hmeasure, List.map_map]
    rfl
  -- the end has 32 bits, even where the total has more
  show (first + UInt32.ofNat total).toNat = _
  rw [UInt32.toNat_add, UInt32.toNat_ofNat', hcount]
  exact Nat.add_mod_mod _ _ _

/-- Where the atoms fit, no end wraps. -/
theorem toNat_stop_of_fits (h : build domains first p = .ok b)
    (hfits : first.toNat + domains.tupleCount p.domains ≤ 2147483648) :
    b.stop.toNat = first.toNat + domains.tupleCount p.domains := by
  rw [toNat_stop_of_build h]
  exact Nat.mod_eq_of_lt (by omega)

end Block

/-! ### Laying out -/

namespace Layout

variable {domains : Domains} {first : UInt32} {ps : List PredicateDecl} {blocks : List Block}

/-- Atoms that fit are laid out, in blocks that end at `2 ^ 31` at the latest. -/
theorem exists_buildBlocks (first : UInt32) (hnames : ∀ p ∈ ps, domains.Inhabit p.domains)
    (hfits : first.toNat + atomTotal domains ps ≤ 2147483648) :
    ∃ blocks, buildBlocks domains first ps = .ok blocks ∧
      ∀ b ∈ blocks, b.stop.toNat ≤ 2147483648 := by
  induction ps generalizing first with
  | nil => exact ⟨[], rfl, by simp⟩
  | cons p ps ih =>
    rw [atomTotal_cons] at hfits
    rcases Block.build_cases first (hnames p List.mem_cons_self) with
      ⟨⟨b, hb⟩, -⟩ | ⟨-, -, hfull⟩
    · -- the remaining blocks begin where this one ends
      have hstop := Block.toNat_stop_of_fits hb (by omega)
      obtain ⟨rest, hrest, hends⟩ :=
        ih b.stop (fun q hq => hnames q (List.mem_cons_of_mem p hq)) (by omega)
      refine ⟨b :: rest, ?_, fun c hc => ?_⟩
      · exact Except.bind_eq_ok_iff.mpr ⟨b, hb, Except.map_eq_ok_iff.mpr ⟨rest, hrest, rfl⟩⟩
      · rcases List.mem_cons.mp hc with rfl | hc
        · omega
        · exact hends c hc
    · omega

/-- Laying out fails for no other reason than exhausted ids. -/
theorem exhausted_of_buildBlocks (hnames : ∀ p ∈ ps, domains.Inhabit p.domains) {fault : Failure}
    (h : buildBlocks domains first ps = .error fault) :
    ∃ n, 2147483648 < n ∧ fault = .layout (.exhausted n) := by
  induction ps generalizing first with
  | nil => cases h
  | cons p ps ih =>
    rcases Except.bind_eq_error_iff.mp h with h | ⟨b, -, h⟩
    · rcases Block.build_cases first (hnames p List.mem_cons_self) with
        ⟨⟨b, hb⟩, -⟩ | ⟨⟨n, hn, hfault⟩, -⟩
      · rw [hb] at h
        cases h
      · rw [hfault] at h
        cases h
        exact ⟨n, hn, rfl⟩
    · cases hrest : buildBlocks domains b.stop ps with
      | ok rest =>
        rw [hrest] at h
        cases h
      | error cause =>
        rw [hrest] at h
        cases h
        exact ih (fun q hq => hnames q (List.mem_cons_of_mem p hq)) hrest

/-- Where more atoms are laid out than fit, a predicate without arguments begins behind the last
id. -/
theorem exists_unmeasured (hnames : ∀ p ∈ ps, domains.Inhabit p.domains)
    (h : buildBlocks domains first ps = .ok blocks) (hfirst : first.toNat ≤ 2147483648)
    (hfull : 2147483648 < first.toNat + atomTotal domains ps) :
    ∃ earlier p later, ps = earlier ++ p :: later ∧ p.domains = [] ∧
      first.toNat + atomTotal domains earlier = 2147483648 ∧
      ∃ b ∈ blocks, b.signature = p.signature ∧ b.domains = [] ∧ b.first.toNat = 2147483648 := by
  induction ps generalizing first blocks with
  | nil => exact absurd hfull (by simpa [atomTotal] using hfirst)
  | cons p ps ih =>
    obtain ⟨b, hb, h⟩ := Except.bind_eq_ok_iff.mp h
    obtain ⟨rest, hrest, rfl⟩ := Except.map_eq_ok_iff.mp h
    have hp := hnames p List.mem_cons_self
    by_cases hfits : first.toNat + domains.tupleCount p.domains ≤ 2147483648
    · have hstop := Block.toNat_stop_of_fits hb hfits
      rw [atomTotal_cons] at hfull
      obtain ⟨earlier, q, later, rfl, hq, htotal, c, hc, hblock⟩ :=
        ih (fun q hq => hnames q (List.mem_cons_of_mem p hq)) hrest (by omega) (by omega)
      refine ⟨p :: earlier, q, later, rfl, hq, ?_, c, List.mem_cons_of_mem b hc, hblock⟩
      rw [atomTotal_cons]
      omega
    · -- an argument would have been measured, so there is none, and one atom is too many
      rcases Block.build_cases first hp with
        ⟨-, hnone | hfits'⟩ | ⟨⟨n, -, hfault⟩, -⟩
      · have hone : domains.tupleCount p.domains = 1 := by
          rw [hnone]
          rfl
        obtain ⟨hsignature, hdomains⟩ := Block.build_eq_ok hb
        refine ⟨[], p, ps, rfl, hnone, ?_, b, List.mem_cons_self, hsignature, ?_, ?_⟩
        · show first.toNat + 0 = 2147483648
          omega
        · rw [hdomains, hnone, List.map_nil]
        · rw [Block.first_of_build hb]
          omega
      · exact absurd hfits' hfits
      · rw [hfault] at hb
        cases hb

end Layout

/-! ### Encoding -/

/-- The only atom of a block that begins behind the last id has no id. -/
theorem Block.encode_nil_eq_error {b : Block} (hdomains : b.domains = [])
    (hfirst : b.first.toNat = 2147483648) :
    b.encode [] = .error (.outsideBlock b.signature 0 b.first.toNat b.stop.toNat) := by
  have hnone : b.encodeIndices [] = none := by
    rw [encodeIndices, if_neg (by rw [hdomains]; exact not_not.mpr rfl), radices, hdomains]
    show AtomId.ofNat? (b.first + 0).toNat = none
    rw [UInt32.add_zero, hfirst]
    rfl
  have hlookup : lookup b.signature 0 [] [] = .ok [] := rfl
  rw [encode, if_neg (by rw [hdomains]; exact not_not.mpr rfl), hdomains, hlookup]
  dsimp only [bind, Except.bind]
  rw [hnone]

namespace Layout

/-- A checked theory has a layout if its blocks can be laid out. -/
theorem build_eq_ok_iff {schema : Schema} {domains : Domains}
    (hvalid : schema.validate domains = .ok ()) {l : Layout} :
    build schema domains = .ok l ↔
      ∃ blocks, buildBlocks domains 1 schema.tables = .ok blocks ∧
        ⟨schema, domains, blocks⟩ = l := by
  rw [build, hvalid]
  show (buildBlocks domains 1 schema.tables >>= _) = _ ↔ _
  rw [Except.bind_eq_ok_iff]
  simp only [Except.ok.injEq]

theorem build_eq_error_iff {schema : Schema} {domains : Domains}
    (hvalid : schema.validate domains = .ok ()) {fault : Failure} :
    build schema domains = .error fault ↔
      buildBlocks domains 1 schema.tables = .error fault := by
  rw [build, hvalid]
  show (buildBlocks domains 1 schema.tables >>= _) = _ ↔ _
  rw [Except.bind_eq_error_iff]
  simp

/-- A theory with no more ground atoms than there are ids has a layout, and all of its atoms can be
encoded. -/
theorem exists_isComplete {schema : Schema} {domains : Domains}
    (hvalid : schema.validate domains = .ok ())
    (hfits : atomTotal domains schema.tables ≤ 2147483647) :
    ∃ l, build schema domains = .ok l ∧ l.IsComplete := by
  have hone : (1 : UInt32).toNat = 1 := rfl
  obtain ⟨blocks, hblocks, hends⟩ := exists_buildBlocks 1
    (fun _ => Schema.inhabit_of_validate hvalid) (by omega)
  have hbuild := (build_eq_ok_iff hvalid).mpr ⟨blocks, hblocks, rfl⟩
  exact ⟨_, hbuild, isComplete_of_build hbuild hends⟩

/-- A layout of more ground atoms than there are ids has an atom that has none.  It is that of a
predicate without arguments before which all ids are taken. -/
theorem exists_encode_nil_eq_error {schema : Schema} {domains : Domains}
    (hvalid : schema.validate domains = .ok ()) {l : Layout} (hbuild : build schema domains = .ok l)
    (hfull : 2147483647 < atomTotal domains schema.tables) :
    ∃ earlier p later, schema.tables = earlier ++ p :: later ∧ p.domains = [] ∧
      atomTotal domains earlier = 2147483647 ∧ ∃ fault, l.encode p.signature [] = .error fault := by
  have hdeclared := isDeclared_of_build hbuild
  have hone : (1 : UInt32).toNat = 1 := rfl
  obtain ⟨blocks, hblocks, rfl⟩ := (build_eq_ok_iff hvalid).mp hbuild
  obtain ⟨earlier, p, later, htables, hnone, htotal, b, hb, hsignature, hdomains, hfirst⟩ :=
    exists_unmeasured (fun _ => Schema.inhabit_of_validate hvalid) hblocks (by omega)
      (by omega)
  have hfault : encode ⟨schema, domains, blocks⟩ p.signature [] =
      .error (.outsideBlock b.signature 0 b.first.toNat b.stop.toNat) := by
    rw [encode, ← hsignature, hdeclared.block_eq_ok hb]
    exact Block.encode_nil_eq_error hdomains hfirst
  exact ⟨earlier, p, later, htables, hnone, by omega, _, hfault⟩

/-- A theory with no more ground atoms than there are ids has a layout, and where there is none the
ids are exhausted.  A layout encodes all ground atoms just if there are no more than ids.  Provided
that no predicate without arguments begins right behind the last id, there is no layout of more. -/
theorem exists_build_iff_fits {schema : Schema} {domains : Domains}
    (hvalid : schema.validate domains = .ok ()) :
    (atomTotal domains schema.tables ≤ 2147483647 → ∃ l, build schema domains = .ok l) ∧
      (∀ fault, build schema domains = .error fault →
        ∃ n, 2147483648 < n ∧ fault = .layout (.exhausted n)) ∧
      (∀ l, build schema domains = .ok l →
        (atomTotal domains schema.tables ≤ 2147483647 ↔
          ∀ p ∈ schema.tables, ∀ constants ∈ tuplesOf (p.domains.map domains.getOrEmpty),
            ∃ id, l.encode p.signature constants = .ok id)) ∧
      ((∀ earlier p later, schema.tables = earlier ++ p :: later → p.domains = [] →
          atomTotal domains earlier ≠ 2147483647) →
        ((∃ l, build schema domains = .ok l) ↔
          atomTotal domains schema.tables ≤ 2147483647)) := by
  have hlaid : atomTotal domains schema.tables ≤ 2147483647 → ∃ l, build schema domains = .ok l := by
    intro hfits
    obtain ⟨l, hbuild, -⟩ := exists_isComplete hvalid hfits
    exact ⟨l, hbuild⟩
  refine ⟨hlaid, fun fault hfault => ?_, fun l hbuild => ⟨fun hfits p hp constants hmem => ?_,
    fun hall => ?_⟩, fun hbrim => ⟨fun ⟨l, hbuild⟩ => ?_, hlaid⟩⟩
  · exact exhausted_of_buildBlocks (fun _ => Schema.inhabit_of_validate hvalid)
      ((build_eq_error_iff hvalid).mp hfault)
  · obtain ⟨l', hbuild', hcomplete⟩ := exists_isComplete hvalid hfits
    obtain rfl := Except.ok.inj (hbuild'.symm.trans hbuild)
    refine hcomplete.exists_encode_of_mem_tuples ?_
    obtain ⟨blocks, -, rfl⟩ := (build_eq_ok_iff hvalid).mp hbuild
    rwa [tuples, find?_key_eq_some hcomplete.nodup_tables hp]
  · -- otherwise there would be an atom without an id
    by_contra hfull
    obtain ⟨earlier, p, later, htables, hnone, -, fault, hfault⟩ :=
      exists_encode_nil_eq_error hvalid hbuild (Nat.not_le.mp hfull)
    obtain ⟨id, hid⟩ := hall p (by rw [htables]; simp) [] (by rw [hnone]; simp [tuplesOf])
    rw [hfault] at hid
    cases hid
  · by_contra hfull
    obtain ⟨earlier, p, later, htables, hnone, htotal, -⟩ :=
      exists_encode_nil_eq_error hvalid hbuild (Nat.not_le.mp hfull)
    exact hbrim earlier p later htables hnone htotal

end Layout

/-! #### Up to the last id and past it -/

namespace Brim

/-- A coin has two sides. -/
def side : Domain where
  name := "side"
  constants := #["head", "tail"]
  index := Domain.numbering #["head", "tail"]
  nodup := by decide
  index_eq := rfl

/-- The domains of the theory. -/
def domains : Domains :=
  ⟨[side], List.pairwise_singleton _ _⟩

/-- A series of up to thirty tosses may come up, and then a player may win.  The series take all the
ids that there are. -/
def schema : Schema :=
  ⟨(List.range 31).map (fun tosses => ⟨"series", List.replicate tosses "side"⟩) ++ [⟨"win", []⟩],
    []⟩

/-- Without the game, there are as many atoms as ids. -/
def series : Schema :=
  ⟨(List.range 31).map (fun tosses => ⟨"series", List.replicate tosses "side"⟩), []⟩

end Brim

namespace Layout

/-- The series have a layout, because no predicate begins behind the last id. -/
theorem exists_build_iff_fits_series :
    Brim.series.validate Brim.domains = .ok () ∧
      atomTotal Brim.domains Brim.series.tables = 2147483647 ∧
      (∀ earlier p later, Brim.series.tables = earlier ++ p :: later → p.domains = [] →
        atomTotal Brim.domains earlier ≠ 2147483647) ∧
      ∃ l, build Brim.series Brim.domains = .ok l ∧
        ∀ p ∈ Brim.series.tables, ∀ constants ∈ tuplesOf (p.domains.map Brim.domains.getOrEmpty),
          ∃ id, l.encode p.signature constants = .ok id := by
  have hvalid : Brim.series.validate Brim.domains = .ok () := by decide +kernel
  have htotal : atomTotal Brim.domains Brim.series.tables = 2147483647 := by decide +kernel
  have hbrim : ∀ earlier p later, Brim.series.tables = earlier ++ p :: later → p.domains = [] →
      atomTotal Brim.domains earlier ≠ 2147483647 := by
    intro earlier p later htables hnone hearlier
    -- the predicate itself would have one atom too many
    rw [htables, atomTotal_append, atomTotal_cons, hnone, hearlier] at htotal
    have hone : Brim.domains.tupleCount [] = 1 := rfl
    omega
  obtain ⟨-, -, hencode, hiff⟩ := exists_build_iff_fits hvalid
  obtain ⟨l, hbuild⟩ := (hiff hbrim).mpr htotal.le
  exact ⟨hvalid, htotal, hbrim, l, hbuild, (hencode l hbuild).mp htotal.le⟩

/-- With the game there is one atom too many, but there is a layout as well.  It cannot encode
winning. -/
theorem exists_build_brim :
    Brim.schema.validate Brim.domains = .ok () ∧
      atomTotal Brim.domains Brim.schema.tables = 2147483648 ∧
      ∃ l, build Brim.schema Brim.domains = .ok l ∧ ∀ id, l.encode ⟨"win", 0⟩ [] ≠ .ok id := by
  have hvalid : Brim.schema.validate Brim.domains = .ok () := by decide +kernel
  have htotal : atomTotal Brim.domains Brim.schema.tables = 2147483648 := by decide +kernel
  have hrun : ((build Brim.schema Brim.domains).toOption.any fun l =>
      !(l.encode ⟨"win", 0⟩ []).isOk) = true := by
    decide +kernel
  obtain ⟨l, hbuild, hencode⟩ := Except.any_toOption_iff.mp hrun
  refine ⟨hvalid, htotal, l, hbuild, fun id hid => ?_⟩
  rw [hid] at hencode
  cases hencode

end Layout

end LogicNetwork
