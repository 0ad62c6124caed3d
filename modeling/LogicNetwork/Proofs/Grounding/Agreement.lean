import LogicNetwork.Proofs.Evidence.History
import LogicNetwork.Proofs.Grounding.Denotations

/-!
# Numbers in place of names

Resolved clauses carry constants by their numbers as long as they can, and come to the same outcome
as the evaluation over names does (`Clause.outcome_eq_of_resolve`).

Every term that is resolved denotes the constant whose name the term evaluates to
(`Term.denotes_of_resolve`): by induction on the term, one case for each way in which a symbol is
resolved.  With it go the verdicts on literals (`Literal.judge_eq_verdict`), because the constants
of an atom have an id just where their numbers have it, and restrictions (`Restriction.isMet_eq`).
-/

namespace LogicNetwork

/-! ### Resolving terms -/

namespace Evidence.IsStoreOf

variable {e : Evidence} {l : Layout}

/-- The domains of a function belong to the theory. -/
theorem mem_all (h : e.IsStoreOf l) (hl : l.IsDeclared) {t : FunctionTable}
    (ht : t ∈ e.functions) : t.result ∈ l.domains.all ∧ ∀ d ∈ t.domains, d ∈ l.domains.all := by
  have htable : t.decl.auxiliary ∈ l.schema.tables :=
    List.mem_append_right _ (List.mem_map_of_mem (h.decl_mem ht))
  have hmem := hl.domain_mem _ htable
  rw [(h.isOver t ht).result_eq, (h.isOver t ht).domains_eq]
  refine ⟨hmem _ List.mem_cons_self, fun d hd => ?_⟩
  obtain ⟨name, hname, rfl⟩ := List.mem_map.mp hd
  exact hmem name (List.mem_cons_of_mem _ hname)

end Evidence.IsStoreOf

/-- The constants that slots have under a binding. -/
def Slot.denotations (slots : List Slot) (binding : List Nat) : List Denotation :=
  List.zipWith (fun slot i => .member slot.domain i) slots binding

/-- The names of these constants. -/
def Slot.substitution (slots : List Slot) (binding : List Nat) : Substitution :=
  List.zipWith (fun slot i => (slot.name, slot.domain.symbol i)) slots binding

/-- The slot of a variable has the constant that the variable stands for. -/
theorem Slot.denotes {ds : Domains} {slots : List Slot}
    (hslots : ∀ slot ∈ slots, slot.domain ∈ ds.all) {binding : List Nat}
    (hbinding : MixedRadix.IsNumeral (slots.map fun slot => slot.domain.size) binding)
    {name : String} {i : Nat} (hi : (slots.findIdx? fun slot => slot.name == name) = some i) :
    (ResolvedTerm.slot i).Denotes ds (denotations slots binding)
      ((substitution slots binding).symbol? name) := by
  induction slots generalizing binding i with
  | nil => cases hi
  | cons slot slots ih =>
    obtain ⟨k, binding, rfl⟩ := List.exists_cons_of_length_eq_add_one hbinding.length_eq
    rw [List.findIdx?_cons] at hi
    unfold Substitution.symbol? substitution
    rw [List.zipWith_cons_cons, List.find?_cons]
    split_ifs at hi with hname
    · cases hi
      dsimp only
      rw [hname]
      refine ⟨rfl, fun v hv => ?_⟩
      cases hv
      exact ⟨hslots slot List.mem_cons_self, hbinding.1⟩
    · obtain ⟨j, hj, rfl⟩ := Option.map_eq_some_iff.mp hi
      dsimp only
      rw [Bool.not_eq_true] at hname
      rw [hname]
      have hrest := ih (fun s hs => hslots s (List.mem_cons_of_mem slot hs)) hbinding.2 hj
      exact ⟨hrest.symbol_eq, hrest.isIn⟩

namespace Term

variable {e : Evidence} {l : Layout} {b : Builtins} {slots : List Slot} {binding : List Nat}

mutual

/-- A term that is resolved denotes the constant whose name it evaluates to. -/
theorem denotes_of_resolve (h : e.IsStoreOf l) (hl : l.IsDeclared)
    (hslots : ∀ slot ∈ slots, slot.domain ∈ l.domains.all)
    (hbinding : MixedRadix.IsNumeral (slots.map fun slot => slot.domain.size) binding) :
    ∀ (t : Term) (position : Option Domain) (r : ResolvedTerm),
      (∀ d, position = some d → d ∈ l.domains.all) → resolve e b slots t position = .ok r →
        r.Denotes l.domains (Slot.denotations slots binding)
          (t.symbol? e b (Slot.substitution slots binding))
  | const c, some d, r, hposition, hr => by
    rw [resolve] at hr
    split at hr
    · rename_i i hi
      cases hr
      have hsymbol := Domain.indexOf?_eq_some_iff.mp hi
      refine ⟨?_, fun v hv => ?_⟩
      · show some (d.symbol i) = some c
        rw [Domain.symbol, hsymbol, Option.getD_some]
      · cases hv
        exact ⟨hposition d rfl, Domain.symbol?_lt hsymbol⟩
    · cases hr
  | const c, none, r, _, hr => by
    rw [resolve] at hr
    cases hr
    refine ⟨rfl, fun v hv => ?_⟩
    cases hv
    trivial
  | var v, _, r, _, hr => by
    rw [resolve] at hr
    split at hr
    · rename_i i hi
      cases hr
      exact Slot.denotes hslots hbinding hi
    · cases hr
  | app f as, _, r, _, hr => by
    rw [resolve] at hr
    split at hr
    · rename_i t ht
      obtain ⟨ht', hsignature⟩ := Evidence.mem_of_function? ht
      obtain ⟨hresult, hdomains⟩ := h.mem_all hl ht'
      have hover := h.isOver t ht'
      have hlength : as.length = t.domains.length := by
        rw [hover.domains_eq, List.length_map]
        exact (congrArg Signature.arity hsignature).symm
      obtain ⟨rs, hrs, rfl⟩ := Except.map_eq_ok_iff.mp hr
      obtain ⟨hall, hsame⟩ := denoteAll_of_resolveAll h hl hslots hbinding as _ rs
        (by rw [List.length_map, hlength]) (by simpa using hdomains) hrs
      rw [symbol?, ht]
      exact hall.tabled hover hresult hdomains (hsame.trans hlength)
    · rename_i hnone
      split at hr
      · rename_i g hg
        obtain ⟨rs, hrs, rfl⟩ := Except.map_eq_ok_iff.mp hr
        obtain ⟨hall, -⟩ := denoteAll_of_resolveAll h hl hslots hbinding as _ rs
          List.length_replicate (by simp) hrs
        rw [symbol?, hnone, hg]
        exact hall.computed g
      · cases hr

theorem denoteAll_of_resolveAll (h : e.IsStoreOf l) (hl : l.IsDeclared)
    (hslots : ∀ slot ∈ slots, slot.domain ∈ l.domains.all)
    (hbinding : MixedRadix.IsNumeral (slots.map fun slot => slot.domain.size) binding) :
    ∀ (as : List Term) (positions : List (Option Domain)) (rs : List ResolvedTerm),
      positions.length = as.length → (∀ d, some d ∈ positions → d ∈ l.domains.all) →
        resolveAll e b slots as positions = .ok rs →
          ResolvedTerm.DenoteAll l.domains (Slot.denotations slots binding) rs
            (symbols? e b (Slot.substitution slots binding) as) ∧ rs.length = as.length
  | [], _, rs, _, _, hrs => by
    rw [resolveAll] at hrs
    · cases hrs
      exact ⟨⟨rfl, by simp⟩, rfl⟩
    · exact fun _ _ _ _ heq => nomatch heq
  | a :: as, [], _, hlength, _, _ => by cases hlength
  | a :: as, p :: ps, rs, hlength, hpositions, hrs => by
    rw [resolveAll] at hrs
    obtain ⟨r, hr, hrs⟩ := Except.bind_eq_ok_iff.mp hrs
    obtain ⟨rest, hrest, rfl⟩ := Except.map_eq_ok_iff.mp hrs
    have ha := denotes_of_resolve h hl hslots hbinding a p r
      (fun d hd => hpositions d (hd ▸ List.mem_cons_self)) hr
    obtain ⟨has, hsame⟩ := denoteAll_of_resolveAll h hl hslots hbinding as ps rest
      (by simpa using hlength) (fun d hd => hpositions d (List.mem_cons_of_mem p hd)) hrest
    rw [symbols?]
    exact ⟨has.cons ha, by rw [List.length_cons, List.length_cons, hsame]⟩

end

end Term

/-! ### Resolving literals and restrictions -/

namespace Evidence.IsStoreOf

variable {e : Evidence} {l : Layout}

theorem block?_eq (h : e.IsStoreOf l) (s : Signature) :
    l.block? s = (e.table? s).map FactTable.block := by
  unfold Layout.block?
  rw [← h.blocks_eq, List.find?_map]
  rfl

/-- Looking constants up is looking up the id of their numbers. -/
theorem lookUp_eq (h : e.IsStoreOf l) (hl : l.IsComplete) {s : Signature} {t : FactTable}
    (ht : e.table? s = some t) {constants : List String}
    (hlength : constants.length = t.block.domains.length) :
    e.lookUp s constants =
      ((Block.lookup s 0 t.block.domains constants).toOption.bind t.block.encodeIndices).map
        fun id => (id, t.get id) := by
  obtain ⟨hmem, hsignature⟩ := mem_of_table? ht
  have hpositional := hl.positional t.block (h.block_mem hmem)
  have hblock : l.block s = .ok t.block := by
    rw [Layout.block, h.block?_eq, ht]
    rfl
  have hencode : l.encode s constants = t.block.encode constants := by
    rw [Layout.encode, hblock]
    rfl
  rw [lookUp, h.layout_eq, hencode, Block.encode, if_neg (not_ne_iff.mpr hlength), hsignature]
  cases Block.lookup s 0 t.block.domains constants with
  | error cause => rfl
  | ok indices =>
    cases hid : t.block.encodeIndices indices with
    | none => simp [hid, bind, Except.bind, Except.toOption]
    | some id =>
      have hcontains : t.block.contains id.number = true := by
        rw [Block.encodeIndices_eq_some_iff_decodeIndices hpositional] at hid
        exact (Block.decodeIndices_eq_ok_iff.mp hid).1
      have hget : e.get s id = .ok (t.get id) := by
        rw [get_eq_of_table? ht, if_pos hcontains]
      simp [hid, hget, bind, Except.bind, Except.toOption]

end Evidence.IsStoreOf

section

variable {e : Evidence} {l : Layout} {b : Builtins} {slots : List Slot} {binding : List Nat}

/-- The verdict on a resolved literal is the one over names. -/
theorem Literal.judge_eq_verdict (h : e.IsStoreOf l) (hl : l.IsComplete)
    (hslots : ∀ slot ∈ slots, slot.domain ∈ l.domains.all)
    (hbinding : MixedRadix.IsNumeral (slots.map fun slot => slot.domain.size) binding)
    {literal : Literal} {r : ResolvedLiteral} (hr : literal.resolve e b slots = .ok r) :
    r.judge (Slot.denotations slots binding) =
      literal.verdict e b (Slot.substitution slots binding) := by
  rw [resolve] at hr
  rw [verdict, h.layout_eq, h.block?_eq]
  split at hr
  · rename_i t ht
    obtain ⟨hmem, hsignature⟩ := Evidence.mem_of_table? ht
    have hblock := h.block_mem hmem
    have hlength : literal.arguments.length = t.block.domains.length := by
      rw [hl.length_domains hblock, hsignature]
      rfl
    obtain ⟨rs, hrs, rfl⟩ := Except.map_eq_ok_iff.mp hr
    obtain ⟨hall, hsame⟩ := Term.denoteAll_of_resolveAll h hl.toIsDeclared hslots hbinding _ _ rs
      (by rw [List.length_map, hlength]) (fun d hd => hl.mem_all hblock (by simpa using hd)) hrs
    rw [ResolvedLiteral.judge, ResolvedTerm.indices?_eq (fun d hd => hl.mem_all hblock hd)
      (hsame.trans hlength) hall.isIn literal.signature 0, ← hall.symbols_eq, ht]
    cases hsymbols : ResolvedTerm.symbols? (Slot.denotations slots binding) rs with
    | none => rfl
    | some symbols =>
      dsimp only [Option.bind_some, Option.map_some]
      have hconstants : symbols.length = t.block.domains.length :=
        ((ResolvedTerm.length_of_symbols? hsymbols).trans hsame).trans hlength
      rw [h.lookUp_eq hl ht hconstants]
      cases (Block.lookup literal.signature 0 t.block.domains symbols).toOption.bind
        t.block.encodeIndices with
      | none => rfl
      | some id =>
        dsimp only [Option.map_some]
        cases t.get id <;> cases literal.positive <;> rfl
  · rename_i hnone
    rw [hnone]
    split at hr
    · rename_i test htest
      obtain ⟨rs, hrs, rfl⟩ := Except.map_eq_ok_iff.mp hr
      obtain ⟨hall, -⟩ := Term.denoteAll_of_resolveAll h hl.toIsDeclared hslots hbinding _ _ rs
        List.length_replicate (by simp) hrs
      rw [ResolvedLiteral.judge, ← hall.symbols_eq, htest]
      cases ResolvedTerm.symbols? (Slot.denotations slots binding) rs <;> rfl
    · cases hr

/-- A resolved restriction is met where the names of its sides say so. -/
theorem Restriction.isMet_eq (h : e.IsStoreOf l) (hl : l.IsDeclared)
    (hslots : ∀ slot ∈ slots, slot.domain ∈ l.domains.all)
    (hbinding : MixedRadix.IsNumeral (slots.map fun slot => slot.domain.size) binding)
    {restriction : Restriction} {r : ResolvedRestriction}
    (hr : restriction.resolve e b slots = .ok r) :
    r.isMet (Slot.denotations slots binding) =
      restriction.isMet e b (Slot.substitution slots binding) := by
  obtain ⟨left, hleft, hr⟩ := Except.bind_eq_ok_iff.mp hr
  obtain ⟨right, hright, hr⟩ := Except.bind_eq_ok_iff.mp hr
  cases hr
  have hleft := Term.denotes_of_resolve h hl hslots hbinding _ none left nofun hleft
  have hright := Term.denotes_of_resolve h hl hslots hbinding _ none right nofun hright
  rw [ResolvedRestriction.isMet, isMet, ← hleft.symbol_eq, ← hright.symbol_eq]
  cases hv : left.denote? (Slot.denotations slots binding) with
  | none => rfl
  | some v =>
    cases hw : right.denote? (Slot.denotations slots binding) with
    | none => rfl
    | some w =>
      have hsame := Denotation.same_eq (hleft.isIn v hv) (hright.isIn w hw)
      dsimp only [Option.map_some]
      rw [hsame]

end

/-! ### Clauses -/

namespace Clause

variable {α : Type} {c : Clause α}

/-- The slot of a variable has the domain of the theory that the typing names. -/
theorem slot_eq_ok {l : Layout} {types : Typing} {v : Variable} {slot : Slot}
    (h : c.slot l types v = .ok slot) :
    slot.name = v.name ∧
      ∃ d, types.domain? v.name = some d ∧ l.domains.get? d = some slot.domain := by
  unfold Clause.slot at h
  split at h
  · cases h
  · rename_i d hd
    split at h
    · cases h
    · rename_i domain hdomain
      cases h
      exact ⟨rfl, d, hd, hdomain⟩

/-- The slots of a clause are those of its variables, with domains of the theory. -/
theorem slots_eq_ok {l : Layout} {slots : List Slot} (h : c.slots l = .ok slots) :
    slots.map Slot.name = c.freeVariables.map Variable.name ∧
      ∀ slot ∈ slots, slot.domain ∈ l.domains.all := by
  obtain ⟨types, -, h⟩ := Except.bind_eq_ok_iff.mp h
  refine ⟨Except.map_eq_map_of_mapM_eq_ok h fun v slot hv => (slot_eq_ok hv).1, ?_⟩
  intro slot hmem
  obtain ⟨v, -, hv⟩ := Except.exists_of_mem_of_mapM_eq_ok h hmem
  obtain ⟨-, d, -, hd⟩ := slot_eq_ok hv
  exact (Domains.get?_eq_some hd).1

/-- A resolved clause binds the variables of the clause, and under every binding it comes to the
outcome that the names of the constants give. -/
theorem outcome_eq_of_resolve {schema : Schema} {domains : Domains} {l : Layout}
    {a : Assumptions} {facts : List Fact} {values : List FunctionValue} {e : Evidence}
    (hl : Layout.build schema domains = .ok l)
    (hstop : ∀ b ∈ l.blocks, b.stop.toNat ≤ 2147483648)
    (he : Evidence.build l a facts values = .ok e) (calls : List Evidence.Call) {b : Builtins}
    {r : ResolvedClause} (hr : c.resolve (e.after calls) b = .ok r) :
    r.slots.map Slot.name = c.freeVariables.map Variable.name ∧
      ∀ binding, MixedRadix.IsNumeral r.radices binding →
        r.outcome binding = c.outcome (e.after calls) b (r.describe binding) := by
  have hcomplete := Layout.isComplete_of_build hl hstop
  have hstore := Evidence.isStoreOf_after_build hcomplete.toIsDeclared he calls
  obtain ⟨slots, hslots, hr⟩ := Except.bind_eq_ok_iff.mp hr
  obtain ⟨literals, hliterals, hr⟩ := Except.bind_eq_ok_iff.mp hr
  obtain ⟨restrictions, hrestrictions, hr⟩ := Except.bind_eq_ok_iff.mp hr
  cases hr
  rw [hstore.layout_eq] at hslots
  rw [Except.mapError_eq_ok_iff] at hliterals hrestrictions
  obtain ⟨hnames, hdomains⟩ := slots_eq_ok hslots
  refine ⟨hnames, fun binding hbinding => ?_⟩
  have hverdicts := Except.map_eq_map_of_mapM_eq_ok hliterals fun literal r hr =>
    Literal.judge_eq_verdict hstore hcomplete hdomains hbinding hr
  have hmet := Except.map_eq_map_of_mapM_eq_ok hrestrictions fun restriction r hr =>
    Restriction.isMet_eq hstore hcomplete.toIsDeclared hdomains hbinding hr
  have hall := congrArg (List.all · id) hmet
  simp only [List.all_map, Function.id_comp] at hall
  show (if restrictions.all (ResolvedRestriction.isMet (Slot.denotations slots binding)) = true then
    ResolvedClause.judgeAll (Slot.denotations slots binding) literals [] else _) = _
  rw [ResolvedClause.judgeAll_eq, hverdicts, hall]
  rfl

end Clause

/-! #### A calendar -/

namespace Layout.Calendar

/-- If it rains on a day, it rains on the day after or is planned for, unless that is Monday. -/
def clause : Clause Float where
  index := 0
  weight := .hard
  literals := [⟨false, "Rain", [.var ⟨"x", none⟩]⟩,
    ⟨true, "Rain", [.app "next" [.var ⟨"x", none⟩]]⟩,
    ⟨true, "Plan", [.var ⟨"x", none⟩, .app "next" [.var ⟨"x", none⟩]]⟩]
  restrictions := [⟨false, .app "next" [.var ⟨"x", none⟩], .const "Monday"⟩]

/-- It is no longer known whether it rains on Monday. -/
def doubtful : List Evidence.Call :=
  [.set ⟨"Rain", 1⟩ default .unknown]

theorem exists_resolved : ∃ r, clause.resolve (evidence.after doubtful) .standard = .ok r ∧
    r.radices = [day.size] ∧ r.describe [0] = [("x", day.symbol 0)] :=
  ⟨_, rfl, rfl, rfl⟩

theorem outcome_eq_of_resolve_calendar : build schema domains = .ok layout ∧
    (∀ b ∈ layout.blocks, b.stop.toNat ≤ 2147483648) ∧
    Evidence.build layout assumptions facts values = .ok evidence ∧
    ∃ r, clause.resolve (evidence.after doubtful) .standard = .ok r ∧
      r.slots.map Slot.name = clause.freeVariables.map Variable.name ∧
      MixedRadix.IsNumeral r.radices [0] ∧
      r.outcome [0] = clause.outcome (evidence.after doubtful) .standard [("x", "Monday")] := by
  obtain ⟨r, hr, hradices, hdescribe⟩ := exists_resolved
  obtain ⟨hnames, houtcome⟩ :=
    Clause.outcome_eq_of_resolve build_eq stop_le build_evidence doubtful hr
  have hbinding : MixedRadix.IsNumeral r.radices [0] := by
    rw [hradices, size_day]
    exact ⟨by decide, trivial⟩
  have hmonday : day.symbol 0 = "Monday" := by
    rw [Domain.symbol, symbol?_day]
    rfl
  have hsame := houtcome [0] hbinding
  rw [hdescribe, hmonday] at hsame
  exact ⟨build_eq, stop_le, build_evidence, r, hr, hnames, hbinding, hsame⟩

end Layout.Calendar

end LogicNetwork
