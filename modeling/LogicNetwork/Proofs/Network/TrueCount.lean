import LogicNetwork.Proofs.ExactWeight
import LogicNetwork.Proofs.Network.Grounded

/-!
# Counting the true substitutions of a clause

In a world, `Clause.trueCount` is the number of substitutions of a clause that are not skipped and
whose disjunction is true.  Grounding under evidence keeps this number up to a constant: in every
world that agrees with the evidence it is the constant plus the frequencies of the clause in the
constraints that the world satisfies (`Network.exists_trueCount_eq`).

The proof takes one substitution first.  Its truth is the one of its outcome, and that is an
offset, which no world changes, plus the truth of its contribution, taken with the sign that a
negated single literal flips (`ResolvedClause.toInt_holdsIn_outcome`).  Summed over all
substitutions this is a statement about contributions (`ResolvedClause.trueCount_eq`), and merging
contributions into constraints keeps such sums (`sum_frequency_constraints`).
-/

namespace LogicNetwork

/-! ### Counting in a world -/

/-- The number of substitutions that are not skipped and whose disjunction is true in a world. -/
def ResolvedClause.trueCount (w : World) (c : ResolvedClause) : Nat :=
  (MixedRadix.numerals c.radices).countP fun binding =>
    !c.skips binding && c.holdsIn w binding

/-- The number of substitutions of a clause; a clause that cannot be resolved has none. -/
def Clause.substitutionCount {α : Type} (e : Evidence) (b : Builtins) (c : Clause α) : Nat :=
  match c.resolve e b with
  | .ok r => MixedRadix.count r.radices
  | .error _ => 0

/-- The number of substitutions of a clause that are not skipped and whose disjunction is true in
a world. -/
def Clause.trueCount {α : Type} (e : Evidence) (b : Builtins) (w : World) (c : Clause α) : Nat :=
  match c.resolve e b with
  | .ok r => r.trueCount w
  | .error _ => 0

theorem Clause.substitutionCount_eq {α : Type} {e : Evidence} {b : Builtins} {c : Clause α}
    {r : ResolvedClause} (h : c.resolve e b = .ok r) :
    c.substitutionCount e b = MixedRadix.count r.radices := by
  rw [substitutionCount, h]

theorem Clause.trueCount_eq {α : Type} {e : Evidence} {b : Builtins} {c : Clause α}
    {r : ResolvedClause} (h : c.resolve e b = .ok r) (w : World) :
    c.trueCount e b w = r.trueCount w := by
  rw [trueCount, h]

/-! ### One substitution -/

/-- A literal is true where its opposite is false. -/
theorem World.satisfies_singleton_negate (w : World) (l : GroundLiteral) :
    w.satisfies [l.negate] = !w.satisfies [l] := by
  obtain ⟨atom, positive⟩ := l
  show ((!positive) == w atom || false) = !(positive == w atom || false)
  cases positive <;> cases w atom <;> rfl

/-- Ground literals are true where their contribution is in the state that its sign demands. -/
theorem World.satisfies_eq_beq_of (w : World) (clause : Nat) (literals : List GroundLiteral) :
    w.satisfies literals = (w.satisfies (Contribution.of clause literals).literals ==
      (Contribution.of clause literals).positive) := by
  unfold Contribution.of
  split
  · rename_i l
    split
    · exact (beq_true _).symm
    · -- the single negative literal is kept as its opposite, which is true where it is false
      show w.satisfies [l] = (w.satisfies [l.negate] == false)
      rw [World.satisfies_singleton_negate]
      cases w.satisfies [l] <;> rfl
  · exact (beq_true _).symm

/-- What a contribution counts for where its literals are false. -/
def Contribution.offset (x : Contribution) : Int :=
  if x.positive then 0 else 1

theorem Contribution.toInt_satisfies_beq (w : World) (x : Contribution) :
    (w.satisfies x.literals == x.positive).toInt =
      x.offset + x.sign * (w.satisfies x.literals).toInt := by
  unfold offset sign signOf
  cases x.positive <;> cases w.satisfies x.literals <;> rfl

namespace ResolvedClause

/-- What a substitution counts for in any world, whatever becomes of its contribution. -/
def offset (c : ResolvedClause) (binding : List Nat) : Int :=
  match c.outcome binding with
  | .satisfied => 1
  | .skipped => 0
  | .clause literals => (Contribution.of c.index literals).offset

/-- The truth of a substitution is its offset and the signed truth of its contribution. -/
theorem toInt_holdsIn_outcome (w : World) (c : ResolvedClause) (binding : List Nat) :
    ((c.outcome binding).holdsIn w).toInt = c.offset binding +
      ((c.contribution? binding).map fun x => x.sign * (w.satisfies x.literals).toInt).getD 0 := by
  unfold offset contribution?
  cases c.outcome binding with
  | satisfied => rfl
  | skipped => rfl
  | clause literals =>
    show (w.satisfies literals).toInt = _
    rw [World.satisfies_eq_beq_of w c.index, Contribution.toInt_satisfies_beq]
    rfl

/-! ### All substitutions of a clause -/

/-- The part of the count of true substitutions that no world changes. -/
def constantCount (c : ResolvedClause) : Int :=
  ((MixedRadix.numerals c.radices).map c.offset).sum

/-- The count of true substitutions is a constant plus the signed truth of all contributions. -/
theorem trueCount_eq {e : Evidence} {w : World} (hw : e.AgreesWith w) {c : ResolvedClause}
    (hbased : c.IsBasedOn e) :
    (c.trueCount w : Int) = c.constantCount +
      (c.contributions.map fun x => x.sign * (w.satisfies x.literals).toInt).sum := by
  unfold trueCount constantCount contributions
  rw [natCast_countP_eq_sum]
  induction MixedRadix.numerals c.radices with
  | nil => rfl
  | cons binding bindings ih =>
    -- one substitution adds its offset to the constant, and its contribution to the sum
    have hstep := toInt_holdsIn_outcome w c binding
    rw [holdsIn_outcome hw hbased] at hstep
    rw [List.map_cons, List.sum_cons, List.map_cons, List.sum_cons, List.filterMap_cons, ih, hstep]
    cases c.contribution? binding with
    | none => simp [add_assoc]
    | some x =>
      rw [Option.map_some, Option.getD_some, List.map_cons, List.sum_cons]
      ring

end ResolvedClause

/-! ### A small theory

Rain makes wet, on either of two days, and it is known to rain on the first one.  Of the four
ground atoms, rain is numbered 1 and 2, and wet 3 and 4.
-/

namespace Weather

/-- The days of the forecast. -/
def days : Domain where
  name := "day"
  constants := #["Monday", "Tuesday"]
  index := Domain.numbering #["Monday", "Tuesday"]
  nodup := by decide
  index_eq := rfl

/-- The ids of rain. -/
def rain : Block :=
  ⟨⟨"rain", 1⟩, [days], [1], 1, 2⟩

/-- The ids of being wet. -/
def wet : Block :=
  ⟨⟨"wet", 1⟩, [days], [1], 3, 2⟩

/-- The first id. -/
def rainOnMonday : AtomId :=
  default

/-- Both predicates are open, and it rains on Monday. -/
def evidence : Evidence where
  layout :=
    { schema := ⟨[⟨"rain", ["day"]⟩, ⟨"wet", ["day"]⟩], []⟩
      domains := ⟨[days], List.pairwise_singleton _ _⟩
      blocks := [rain, wet] }
  tables := [(FactTable.empty rain false).set rainOnMonday .true, .empty wet false]
  functions := []

/-- A literal about a day `x`. -/
def about (positive : Bool) (predicate : String) : Literal :=
  ⟨positive, predicate, [.var ⟨"x", none⟩]⟩

/-- Rain makes wet; being wet has a price; rain has a value. -/
def clauses : List (Clause ℚ) :=
  [⟨0, .hard, [about false "rain", about true "wet"], []⟩,
    ⟨1, .soft (1 / 2), [about false "wet"], []⟩,
    ⟨2, .soft 3, [about true "rain"], []⟩]

/-- The worlds of the forecast are those in which it rains on Monday. -/
theorem agreesWith_evidence {w : World} (h : w rainOnMonday = true) :
    evidence.AgreesWith w := by
  intro t ht
  rcases List.mem_cons.mp ht with rfl | ht
  · intro indices id _ v hv
    rw [FactTable.get_set] at hv
    split at hv
    · rename_i hid
      cases hv
      rw [← hid, h]
    · cases hv
  · rw [List.mem_singleton.mp ht]
    intro indices id _ v hv
    cases hv

end Weather

/-! ### Networks -/

namespace Network

variable {α : Type} [WeightArithmetic α] {n : Network α} {b : Builtins} {e : Evidence}
  {clauses : List (Clause α)} {query : List Signature}

/-- Resolved clauses have as few substitutions as the clauses they come from. -/
theorem count_lt_of_substitutionCount {resolved : List ResolvedClause}
    (h : IsResolution b e clauses resolved) {bound : Nat}
    (hsmall : ∀ c ∈ clauses, c.substitutionCount e b < bound) :
    ∀ r ∈ resolved, MixedRadix.count r.radices < bound := by
  intro r hr
  obtain ⟨c, hc, hresolve⟩ := h.exists_clause hr
  rw [← Clause.substitutionCount_eq hresolve]
  exact hsmall c hc

/-- The constraints of a grounding keep the count of true substitutions of every clause. -/
theorem IsGrounding.trueCount_eq {resolved : List ResolvedClause}
    (h : n.IsGrounding b e clauses query resolved) {r : ResolvedClause} (hr : r ∈ resolved)
    (hsmall : MixedRadix.count r.radices < 2147483648) {w : World} (hw : e.AgreesWith w) :
    (r.trueCount w : Int) = r.constantCount +
      (n.constraints.map fun d => d.frequency r.index * (w.satisfies d.literals).toInt).sum := by
  have hfew : ((contributionsOf resolved).countP fun x => x.clause == r.index) < 2147483648 := by
    have hcount := h.countP_contributionsOf_le hr
    omega
  have hsum := sum_frequency_constraints h.constraints_eq hfew
    fun literals => (w.satisfies literals).toInt
  rw [ResolvedClause.trueCount_eq hw (h.isBasedOn hr), hsum,
    ← filter_contributionsOf h.nodup_resolved hr, sum_map_filter]
  simp only [beq_iff_eq]

/-- Grounding preserves the count of true substitutions of every clause: in the worlds that agree
with the evidence it is a constant plus the frequencies of the satisfied constraints. -/
theorem exists_trueCount_eq {chunkSize : Nat} (h : ground chunkSize b e clauses query = .ok n)
    {c : Clause α} (hc : c ∈ clauses) (hsmall : c.substitutionCount e b < 2147483648) :
    ∃ constant : Int, ∀ w : World, e.AgreesWith w →
      (c.trueCount e b w : Int) = constant +
        (n.constraints.map fun d =>
          d.frequency c.index * (w.satisfies d.literals).toInt).sum := by
  obtain ⟨resolved, hgrounding⟩ := isGrounding_of_ground h
  obtain ⟨r, hr, hresolve⟩ := hgrounding.exists_resolved hc
  rw [Clause.substitutionCount_eq hresolve] at hsmall
  have hindex : r.index = c.index := (Clause.resolve_eq_ok hresolve).1
  refine ⟨r.constantCount, fun w hw => ?_⟩
  rw [Clause.trueCount_eq hresolve, hgrounding.trueCount_eq hr hsmall hw, hindex]

theorem exists_trueCount_eq_weather :
    (∃ w, Weather.evidence.AgreesWith w) ∧
    ∃ n, ground 1 ⟨[], []⟩ Weather.evidence Weather.clauses [] = .ok n ∧
      ∀ c ∈ Weather.clauses, c.substitutionCount Weather.evidence ⟨[], []⟩ < 2147483648 ∧
        ∃ constant : Int, ∀ w : World, Weather.evidence.AgreesWith w →
          (c.trueCount Weather.evidence ⟨[], []⟩ w : Int) = constant +
            (n.constraints.map fun d =>
              d.frequency c.index * (w.satisfies d.literals).toInt).sum := by
  refine ⟨⟨fun _ => true, Weather.agreesWith_evidence rfl⟩, ?_⟩
  have hground : (ground 1 ⟨[], []⟩ Weather.evidence Weather.clauses []).isOk = true := by
    decide +kernel
  obtain ⟨n, hn⟩ := Except.isOk_iff.mp hground
  refine ⟨n, hn, fun c hc => ?_⟩
  have hsmall : ∀ c ∈ Weather.clauses,
      c.substitutionCount Weather.evidence ⟨[], []⟩ < 2147483648 := by
    decide +kernel
  exact ⟨hsmall c hc, exists_trueCount_eq hn hc (hsmall c hc)⟩

end Network

end LogicNetwork
