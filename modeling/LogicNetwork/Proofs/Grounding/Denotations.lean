import LogicNetwork.Proofs.Grounding.Symbols

/-!
# Constants by number and by name

Where the number of a constant is one of a domain of the theory (`Denotation.IsIn`), taking it over
into a domain of the same name is looking its name up there (`Denotation.indexIn?_eq`), and
comparing numbers is comparing names (`Denotation.same_eq`).  So the numbers of resolved terms in
the domains of their positions are those that their names have there (`ResolvedTerm.indices?_eq`),
the recorded value of a function at numbers is the one at their names (`FunctionTable.symbol?_eq`),
and terms of functions denote what the names of their arguments give
(`ResolvedTerm.DenoteAll.tabled`, `ResolvedTerm.DenoteAll.computed`).
-/

namespace LogicNetwork

/-! ### Constants -/

namespace Domain

variable {d : Domain} {i j : Nat}

theorem indexOf?_symbol (h : i < d.size) : d.indexOf? (d.symbol i) = some i := by
  have hi : i < d.constants.size := h
  rw [indexOf?_eq_some_iff, symbol, symbol?, Array.getElem?_eq_getElem hi, Option.getD_some]

theorem symbol_inj (hi : i < d.size) (hj : j < d.size) : d.symbol i = d.symbol j ↔ i = j := by
  constructor
  · intro h
    have hindex := indexOf?_symbol hi
    rw [h, indexOf?_symbol hj] at hindex
    exact (Option.some.inj hindex).symm
  · rintro rfl
    rfl

end Domain

namespace Denotation

variable {ds : Domains} {d : Domain} {v w : Denotation}

/-- Whether a constant that is known by its number is one of a domain of the theory. -/
def IsIn (ds : Domains) : Denotation → Prop
  | member d i => d ∈ ds.all ∧ i < d.size
  | text _ => True

theorem indexIn?_eq (hv : v.IsIn ds) (hd : d ∈ ds.all) : v.indexIn? d = d.indexOf? v.symbol := by
  cases v with
  | text s => rfl
  | member e i =>
    show (if e.name = d.name then some i else d.indexOf? (e.symbol i)) = d.indexOf? (e.symbol i)
    split_ifs with hname
    · obtain rfl := Domains.eq_of_name_eq hv.1 hd hname
      exact (Domain.indexOf?_symbol hv.2).symm
    · rfl

theorem same_eq (hv : v.IsIn ds) (hw : w.IsIn ds) : v.same w = (v.symbol == w.symbol) := by
  cases v with
  | text s => rfl
  | member d i =>
    cases w with
    | text s => rfl
    | member e j =>
      show (if d.name = e.name then i == j else d.symbol i == e.symbol j) =
        (d.symbol i == e.symbol j)
      split_ifs with hname
      · obtain rfl := Domains.eq_of_name_eq hv.1 hw.1 hname
        rw [Bool.eq_iff_iff, beq_iff_eq, beq_iff_eq, Domain.symbol_inj hv.2 hw.2]
      · rfl

end Denotation

/-! ### Resolved terms -/

namespace ResolvedTerm

variable {ds : Domains} {slots : List Denotation} {a : ResolvedTerm} {as : List ResolvedTerm}

/-- Whether a resolved term denotes the constant of a name, or nothing if there is none. -/
structure Denotes (ds : Domains) (slots : List Denotation) (a : ResolvedTerm)
    (name : Option String) : Prop where
  symbol_eq : (a.denote? slots).map Denotation.symbol = name
  isIn : ∀ v, a.denote? slots = some v → v.IsIn ds

/-- Whether resolved terms denote constants of names. -/
structure DenoteAll (ds : Domains) (slots : List Denotation) (as : List ResolvedTerm)
    (names : Option (List String)) : Prop where
  symbols_eq : symbols? slots as = names
  isIn : ∀ a ∈ as, ∀ v, a.denote? slots = some v → v.IsIn ds

theorem DenoteAll.cons {name : Option String} {names : Option (List String)}
    (ha : Denotes ds slots a name) (has : DenoteAll ds slots as names) :
    DenoteAll ds slots (a :: as) (name.bind fun s => names.map (s :: ·)) := by
  refine ⟨?_, fun c hc => ?_⟩
  · rw [symbols?, ← ha.symbol_eq, ← has.symbols_eq]
    cases a.denote? slots <;> rfl
  · rcases List.mem_cons.mp hc with rfl | hc
    · exact ha.isIn
    · exact has.isIn c hc

theorem length_of_symbols? {symbols : List String} (h : symbols? slots as = some symbols) :
    symbols.length = as.length := by
  induction as generalizing symbols with
  | nil =>
    rw [symbols?] at h
    cases h
    rfl
  | cons a as ih =>
    rw [symbols?] at h
    obtain ⟨v, -, h⟩ := Option.bind_eq_some_iff.mp h
    obtain ⟨rest, hrest, rfl⟩ := Option.map_eq_some_iff.mp h
    rw [List.length_cons, List.length_cons, ih hrest]

/-- The numbers of terms are those that their names have in the domains of the positions. -/
theorem indices?_eq {domains : List Domain} (hdomains : ∀ d ∈ domains, d ∈ ds.all)
    (hlength : as.length = domains.length)
    (hisIn : ∀ a ∈ as, ∀ v, a.denote? slots = some v → v.IsIn ds) (s : Signature) (position : Nat) :
    indices? slots as domains =
      (symbols? slots as).bind fun symbols =>
        (Block.lookup s position domains symbols).toOption := by
  induction as generalizing domains position with
  | nil =>
    cases domains with
    | nil => rfl
    | cons d domains => cases hlength
  | cons a as ih =>
    obtain ⟨d, domains, rfl⟩ := List.exists_cons_of_length_eq_add_one hlength.symm
    rw [indices?, symbols?]
    cases hv : a.denote? slots with
    | none => rfl
    | some v =>
      have hin := hisIn a List.mem_cons_self v hv
      have hfirst := Denotation.indexIn?_eq hin (hdomains d List.mem_cons_self)
      have hrest := ih (fun e he => hdomains e (List.mem_cons_of_mem d he)) (by simpa using hlength)
        (fun c hc => hisIn c (List.mem_cons_of_mem a hc)) (position + 1)
      show (v.indexIn? d).bind (fun i => (indices? slots as domains).map (i :: ·)) =
        ((symbols? slots as).map (v.symbol :: ·)).bind _
      rw [hfirst, hrest, Option.bind_map]
      -- the name is not one of the domain, or has its number there
      cases hindex : d.indexOf? v.symbol with
      | none => cases symbols? slots as <;> simp [Block.lookup, hindex, Except.toOption]
      | some i =>
        cases symbols? slots as with
        | none => rfl
        | some symbols =>
          simp only [Option.bind_some, Function.comp_apply, Block.lookup, hindex]
          cases Block.lookup s (position + 1) domains symbols <;> rfl

end ResolvedTerm

/-! ### Recorded values -/

/-- Tuples of numbers are told apart by their names. -/
theorem Block.zipWith_symbol_inj {domains : List Domain} {indices others : List Nat}
    (hindices : MixedRadix.IsNumeral (domains.map Domain.size) indices)
    (hothers : MixedRadix.IsNumeral (domains.map Domain.size) others)
    (h : List.zipWith Domain.symbol domains indices = List.zipWith Domain.symbol domains others) :
    indices = others := by
  have hlength : (List.zipWith Domain.symbol domains others).length = domains.length := by
    rw [List.length_zipWith, hothers.length_eq, List.length_map, Nat.min_self]
  have hfirst :
      lookup default 0 domains (List.zipWith Domain.symbol domains others) = .ok indices :=
    (lookup_eq_ok_iff hlength).mpr ⟨hindices, h⟩
  rw [(lookup_eq_ok_iff hlength).mpr ⟨hothers, rfl⟩] at hfirst
  exact (Except.ok.inj hfirst).symm

namespace FunctionTable

variable {t : FunctionTable} {domains : Domains} {arguments : List String} {value : String}

theorem symbol?_eq_some_iff (h : t.IsOver domains) : t.symbol? arguments = some value ↔
    ∃ indices v, t.value? indices = some v ∧
      List.zipWith Domain.symbol t.domains indices = arguments ∧ t.result.symbol v = value := by
  rw [← mem_recorded, symbol?]
  constructor
  · intro hvalue
    obtain ⟨⟨found, result⟩, hfind, rfl⟩ := Option.map_eq_some_iff.mp hvalue
    have hfound : found = arguments := by simpa using List.find?_some hfind
    rw [← hfound]
    exact List.mem_of_find?_eq_some hfind
  · intro hmem
    -- some entry of the arguments is found, and there is only one
    have hsome : (t.recorded.find? fun entry => entry.1 == arguments).isSome = true := by
      rw [List.find?_isSome]
      exact ⟨_, hmem, beq_self_eq_true arguments⟩
    obtain ⟨⟨found, result⟩, hfind⟩ := Option.isSome_iff_exists.mp hsome
    have hfound : found = arguments := by simpa using List.find?_some hfind
    obtain ⟨indices, v, hv, hindices, rfl⟩ := mem_recorded.mp hmem
    obtain ⟨others, w, hw, hothers, rfl⟩ := mem_recorded.mp (List.mem_of_find?_eq_some hfind)
    have hsame := Block.zipWith_symbol_inj (h.inRange _ _ hv).1 (h.inRange _ _ hw).1
      (hindices.trans (hfound.symm.trans hothers.symm))
    rw [← hsame, hv] at hw
    rw [hfind, Option.some.inj hw]
    rfl

/-- The recorded value at arguments is the one at their numbers. -/
theorem symbol?_eq (h : t.IsOver domains) (hlength : arguments.length = t.domains.length)
    (s : Signature) (position : Nat) : t.symbol? arguments =
      ((Block.lookup s position t.domains arguments).toOption.bind t.value?).map
        t.result.symbol := by
  ext value
  rw [symbol?_eq_some_iff h]
  simp only [Option.map_eq_some_iff, Option.bind_eq_some_iff, Except.toOption_eq_some_iff,
    Block.lookup_eq_ok_iff hlength]
  constructor
  · rintro ⟨indices, v, hv, hindices, hvalue⟩
    exact ⟨v, ⟨indices, ⟨(h.inRange indices v hv).1, hindices⟩, hv⟩, hvalue⟩
  · rintro ⟨v, ⟨indices, ⟨-, hindices⟩, hv⟩, hvalue⟩
    exact ⟨indices, v, hv, hindices, hvalue⟩

end FunctionTable

/-! ### Terms of functions -/

namespace ResolvedTerm.DenoteAll

variable {ds : Domains} {slots : List Denotation} {as : List ResolvedTerm}
  {names : Option (List String)}

/-- A declared function has the recorded value. -/
theorem tabled (has : DenoteAll ds slots as names) {t : FunctionTable} (ht : t.IsOver ds)
    (hresult : t.result ∈ ds.all) (hdomains : ∀ d ∈ t.domains, d ∈ ds.all)
    (hlength : as.length = t.domains.length) :
    (ResolvedTerm.tabled t as).Denotes ds slots (names.bind t.symbol?) := by
  refine ⟨?_, fun v hv => ?_⟩
  · rw [denote?, indices?_eq hdomains hlength has.isIn default 0, ← has.symbols_eq]
    cases hsymbols : symbols? slots as with
    | none => rfl
    | some symbols =>
      have hsymbol :=
        FunctionTable.symbol?_eq ht ((length_of_symbols? hsymbols).trans hlength) default 0
      simp only [Option.bind_some, hsymbol]
      -- numbers of the arguments are there or not, and so is a value
      cases (Block.lookup default 0 t.domains symbols).toOption with
      | none => rfl
      | some indices =>
        simp only [bind, Option.bind_some]
        cases t.value? indices <;> rfl
  · rw [denote?] at hv
    obtain ⟨indices, -, hv⟩ := Option.bind_eq_some_iff.mp hv
    obtain ⟨k, hk, rfl⟩ := Option.map_eq_some_iff.mp hv
    exact ⟨hresult, (ht.inRange indices k hk).2⟩

/-- A computed function has the computed value. -/
theorem computed (has : DenoteAll ds slots as names) (f : List String → Option String) :
    (ResolvedTerm.computed f as).Denotes ds slots (names.bind f) := by
  refine ⟨?_, fun v hv => ?_⟩
  · rw [denote?, ← has.symbols_eq]
    cases symbols? slots as with
    | none => rfl
    | some symbols =>
      show ((f symbols).map Denotation.text).map Denotation.symbol = f symbols
      rw [Option.map_map]
      exact Option.map_id'
  · rw [denote?] at hv
    obtain ⟨symbols, -, hv⟩ := Option.bind_eq_some_iff.mp hv
    obtain ⟨s, -, rfl⟩ := Option.map_eq_some_iff.mp hv
    trivial

end ResolvedTerm.DenoteAll

end LogicNetwork
