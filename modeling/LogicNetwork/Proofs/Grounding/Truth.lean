import LogicNetwork.Grounding.Resolved

/-!
# Clauses in possible worlds

A `World` gives every ground atom a truth value.  Here is what a resolved clause says in a world,
without any simplification: a substitution is skipped (`ResolvedClause.skips`), or else its
disjunction is true or not (`ResolvedClause.holdsIn`).

The outcome that grounding computes from the evidence alone keeps all of it.  It is `skipped` just
where the substitution is skipped (`ResolvedClause.outcome_eq_skipped_iff`), and in every world
that agrees with the evidence it is true just where the substitution is not skipped and true
(`ResolvedClause.holdsIn_outcome`).
-/

namespace LogicNetwork

/-! ### Worlds -/

/-- A truth value for every ground atom. -/
abbrev World := AtomId → Bool

/-- Whether some literal of a list is true. -/
def World.satisfies (w : World) (literals : List GroundLiteral) : Bool :=
  literals.any fun l => l.holds (w l.atom)

theorem World.satisfies_iff {w : World} {literals : List GroundLiteral} :
    w.satisfies literals = true ↔ ∃ l ∈ literals, l.holds (w l.atom) = true :=
  List.any_eq_true

/-- Whether the world has the atoms that a table decides at their decided values. -/
def FactTable.AgreesWith (t : FactTable) (w : World) : Prop :=
  ∀ indices id, t.block.encodeIndices indices = some id →
    ∀ v, (t.get id).known? = some v → w id = v

/-- Whether the world has every ground atom that the evidence decides at its decided value. -/
def Evidence.AgreesWith (e : Evidence) (w : World) : Prop :=
  ∀ t ∈ e.tables, t.AgreesWith w

/-! ### Ordered literals -/

namespace GroundLiteral

theorem precedes_iff {a b : GroundLiteral} :
    a.precedes b = true ↔ a.atom.number < b.atom.number ∨
      (a.atom.number = b.atom.number ∧ a.positive = false ∧ b.positive = true) := by
  simp [precedes, and_assoc]

theorem precedes_trans {a b c : GroundLiteral} (hab : a.precedes b = true)
    (hbc : b.precedes c = true) : a.precedes c = true := by
  rw [precedes_iff] at *
  rcases hab with hab | ⟨hab, ha, hb⟩ <;> rcases hbc with hbc | ⟨hbc, hb', hc⟩
  · exact .inl (by omega)
  · exact .inl (by omega)
  · exact .inl (by omega)
  · -- three literals of one atom cannot all be different
    rw [hb] at hb'
    cases hb'

theorem precedes_of_not_precedes {a b : GroundLiteral} (hne : a ≠ b)
    (h : ¬ a.precedes b = true) : b.precedes a = true := by
  rw [precedes_iff] at *
  obtain ⟨i, p⟩ := a
  obtain ⟨j, q⟩ := b
  dsimp only at *
  by_cases hij : i.number = j.number
  · obtain rfl : i = j := AtomId.ext hij
    cases p <;> cases q <;> simp_all
  · exact .inl (by omega)

/-- Neighbours of one atom in an ordered list are opposite. -/
theorem positive_of_precedes {a b : GroundLiteral} (hatom : a.atom = b.atom)
    (h : a.precedes b = true) : a.positive = false ∧ b.positive = true := by
  rw [precedes_iff, hatom] at h
  rcases h with h | h
  · exact absurd h (Nat.lt_irrefl _)
  · exact h.2

end GroundLiteral

theorem mem_insertLiteral {g l : GroundLiteral} {ls : List GroundLiteral} :
    g ∈ insertLiteral l ls ↔ g = l ∨ g ∈ ls := by
  induction ls with
  | nil => simp [insertLiteral]
  | cons m rest ih =>
    rw [insertLiteral]
    split
    · rename_i heq
      rw [heq, List.mem_cons]
      exact ⟨.inr, fun h => h.elim .inl id⟩
    · split
      · exact List.mem_cons
      · rw [List.mem_cons, ih, List.mem_cons]
        exact or_left_comm

theorem pairwise_insertLiteral {l : GroundLiteral} {ls : List GroundLiteral}
    (h : ls.Pairwise fun a b => a.precedes b = true) :
    (insertLiteral l ls).Pairwise fun a b => a.precedes b = true := by
  induction ls with
  | nil => simp [insertLiteral]
  | cons m rest ih =>
    obtain ⟨hm, hrest⟩ := List.pairwise_cons.mp h
    rw [insertLiteral]
    split
    · exact h
    · rename_i hne
      split
      · rename_i hlt
        refine List.pairwise_cons.mpr ⟨fun g hg => ?_, h⟩
        rcases List.mem_cons.mp hg with rfl | hg
        · exact hlt
        · exact GroundLiteral.precedes_trans hlt (hm g hg)
      · rename_i hle
        refine List.pairwise_cons.mpr ⟨fun g hg => ?_, ih hrest⟩
        rcases mem_insertLiteral.mp hg with rfl | hg
        · exact GroundLiteral.precedes_of_not_precedes hne hle
        · exact hm g hg

theorem World.satisfies_insertLiteral (w : World) (l : GroundLiteral) (ls : List GroundLiteral) :
    w.satisfies (insertLiteral l ls) = (l.holds (w l.atom) || w.satisfies ls) := by
  rw [Bool.eq_iff_iff, Bool.or_eq_true, World.satisfies_iff, World.satisfies_iff]
  constructor
  · rintro ⟨g, hg, hold⟩
    rcases mem_insertLiteral.mp hg with rfl | hg
    · exact .inl hold
    · exact .inr ⟨g, hg, hold⟩
  · rintro (hold | ⟨g, hg, hold⟩)
    · exact ⟨l, mem_insertLiteral.mpr (.inl rfl), hold⟩
    · exact ⟨g, mem_insertLiteral.mpr (.inr hg), hold⟩

/-- Of two opposite literals one is true in any world. -/
theorem World.satisfies_of_hasComplement {ls : List GroundLiteral}
    (hsorted : ls.Pairwise fun a b => a.precedes b = true) (h : hasComplement ls = true)
    (w : World) : w.satisfies ls = true := by
  induction ls with
  | nil => cases h
  | cons a ls ih =>
    cases ls with
    | nil => cases h
    | cons b rest =>
      obtain ⟨ha, hrest⟩ := List.pairwise_cons.mp hsorted
      rw [hasComplement, Bool.or_eq_true] at h
      rw [World.satisfies_iff]
      rcases h with h | h
      · -- neighbours of one atom: the first is the negative literal, the second the positive one
        have hatom : a.atom = b.atom := of_decide_eq_true h
        obtain ⟨hneg, hpos⟩ := GroundLiteral.positive_of_precedes hatom (ha b (by simp))
        cases hw : w a.atom with
        | true => exact ⟨b, by simp, by rw [GroundLiteral.holds, hpos, ← hatom, hw]; rfl⟩
        | false => exact ⟨a, by simp, by rw [GroundLiteral.holds, hneg, hw]; rfl⟩
      · obtain ⟨g, hg, hold⟩ := World.satisfies_iff.mp (ih hrest h)
        exact ⟨g, List.mem_cons_of_mem _ hg, hold⟩

/-! ### Literals under a substitution -/

namespace ResolvedLiteral

/-- The ground atom of a table at the given arguments. -/
def groundAtom? (slots : List Denotation) (table : FactTable) (arguments : List ResolvedTerm) :
    Option AtomId :=
  (ResolvedTerm.indices? slots arguments table.block.domains).bind table.block.encodeIndices

/-- Whether all terms of a literal are defined and, if it is no computed one, it denotes a ground
atom. -/
def isDefined (slots : List Denotation) : ResolvedLiteral → Bool
  | atom _ table as => (groundAtom? slots table as).isSome
  | computed _ _ as => (ResolvedTerm.symbols? slots as).isSome

/-- Whether a literal is true by computation or by the evidence. -/
def isSettled (slots : List Denotation) : ResolvedLiteral → Bool
  | atom positive table as =>
    (groundAtom? slots table as).any fun id => (table.get id).known? == some positive
  | computed positive test as =>
    (ResolvedTerm.symbols? slots as).any fun symbols => test symbols == positive

/-- Whether a literal is true in a world; an undefined one is not. -/
def holdsIn (w : World) (slots : List Denotation) : ResolvedLiteral → Bool
  | atom positive table as => (groundAtom? slots table as).any fun id => w id == positive
  | computed positive test as =>
    (ResolvedTerm.symbols? slots as).any fun symbols => test symbols == positive

/-- Whether a literal looks its atoms up in the given evidence. -/
def IsBasedOn (e : Evidence) : ResolvedLiteral → Prop
  | atom _ table _ => table ∈ e.tables
  | computed _ _ _ => True

theorem judge_atom (slots : List Denotation) (positive : Bool) (table : FactTable)
    (as : List ResolvedTerm) :
    (atom positive table as).judge slots =
      match groundAtom? slots table as with
      | none => .undefined
      | some id =>
        match (table.get id).known? with
        | some truth => .ofBool (truth == positive)
        | none => .undecided ⟨id, positive⟩ :=
  rfl

/-- The verdict on a literal says whether it is defined and whether it is settled. -/
theorem judge_spec (slots : List Denotation) (l : ResolvedLiteral) :
    match l.judge slots with
    | .holds => l.isDefined slots = true ∧ l.isSettled slots = true
    | .fails => l.isDefined slots = true ∧ l.isSettled slots = false
    | .undecided _ => l.isDefined slots = true ∧ l.isSettled slots = false
    | .undefined => l.isDefined slots = false := by
  cases l with
  | computed positive test as =>
    simp only [judge, isDefined, isSettled]
    cases ResolvedTerm.symbols? slots as with
    | none => rfl
    | some symbols =>
      dsimp only [Option.any_some]
      cases test symbols == positive <;> exact ⟨rfl, rfl⟩
  | atom positive table as =>
    simp only [judge_atom, isDefined, isSettled]
    cases groundAtom? slots table as with
    | none => rfl
    | some id =>
      dsimp only [Option.any_some]
      cases (table.get id).known? with
      | none => exact ⟨rfl, rfl⟩
      | some truth => cases truth <;> cases positive <;> exact ⟨rfl, rfl⟩

/-- In worlds that agree with the evidence, the verdict on a literal is what is left of it. -/
theorem holdsIn_of_judge {e : Evidence} {w : World} (hw : e.AgreesWith w)
    (slots : List Denotation) {l : ResolvedLiteral} (hl : l.IsBasedOn e) :
    match l.judge slots with
    | .holds => l.holdsIn w slots = true
    | .fails => l.holdsIn w slots = false
    | .undecided g => l.holdsIn w slots = g.holds (w g.atom)
    | .undefined => l.holdsIn w slots = false := by
  cases l with
  | computed positive test as =>
    simp only [judge, holdsIn]
    cases ResolvedTerm.symbols? slots as with
    | none => rfl
    | some symbols =>
      dsimp only [Option.any_some]
      cases test symbols == positive <;> rfl
  | atom positive table as =>
    simp only [judge_atom, holdsIn]
    cases hid : groundAtom? slots table as with
    | none => rfl
    | some id =>
      obtain ⟨indices, -, hencode⟩ := Option.bind_eq_some_iff.mp hid
      dsimp only [Option.any_some]
      cases hknown : (table.get id).known? with
      | none => exact Bool.beq_comm
      | some truth =>
        -- the world has the atom at the value that the evidence decides
        rw [hw table hl indices id hencode truth hknown]
        cases truth <;> cases positive <;> rfl

end ResolvedLiteral

/-! ### Clauses under a substitution -/

/-- Whether the first literal that is undefined or settled is undefined. -/
def isBlocked (slots : List Denotation) (literals : List ResolvedLiteral) : Bool :=
  (literals.find? fun l => !l.isDefined slots || l.isSettled slots).any fun l =>
    !l.isDefined slots

theorem isBlocked_cons (slots : List Denotation) (l : ResolvedLiteral)
    (rest : List ResolvedLiteral) :
    isBlocked slots (l :: rest) =
      (!l.isDefined slots || (!l.isSettled slots && isBlocked slots rest)) := by
  rw [isBlocked, List.find?_cons]
  cases hdefined : l.isDefined slots <;> cases hsettled : l.isSettled slots <;>
    simp [isBlocked, hdefined]

namespace ResolvedClause

/-- Whether a substitution is skipped: a restriction is not met, or a literal is undefined and
none before it is settled. -/
def skips (c : ResolvedClause) (binding : List Nat) : Bool :=
  !(c.restrictions.all fun r => r.isMet (c.denotations binding)) ||
    isBlocked (c.denotations binding) c.literals

/-- Whether the disjunction of the literals is true in a world under a substitution. -/
def holdsIn (w : World) (c : ResolvedClause) (binding : List Nat) : Bool :=
  c.literals.any fun l => l.holdsIn w (c.denotations binding)

/-- Whether all literals look their atoms up in the given evidence. -/
def IsBasedOn (c : ResolvedClause) (e : Evidence) : Prop :=
  ∀ l ∈ c.literals, l.IsBasedOn e

end ResolvedClause

/-! ### Outcomes -/

/-- Whether what is left of a clause is true in a world; a skipped substitution is not. -/
def Outcome.holdsIn (w : World) : Outcome → Bool
  | satisfied => true
  | skipped => false
  | clause literals => w.satisfies literals

namespace ResolvedClause

/-- Judging literals in order keeps the truth of their disjunction.  `found` holds the undecided
literals met before, and is ordered throughout. -/
theorem holdsIn_judgeAll {e : Evidence} {w : World} (hw : e.AgreesWith w)
    (slots : List Denotation) {literals : List ResolvedLiteral}
    (hbased : ∀ l ∈ literals, l.IsBasedOn e) {found : List GroundLiteral}
    (hfound : found.Pairwise fun a b => a.precedes b = true) :
    (judgeAll slots literals found).holdsIn w =
      (!isBlocked slots literals &&
        ((literals.any fun l => l.holdsIn w slots) || w.satisfies found)) := by
  induction literals generalizing found with
  | nil =>
    rw [judgeAll]
    split
    · rename_i hcomplement
      rw [World.satisfies_of_hasComplement hfound hcomplement]
      rfl
    · rfl
  | cons l rest ih =>
    -- both sides go on with `rest`, unless the verdict on `l` ends them
    have hspec := l.judge_spec slots
    have htruth := l.holdsIn_of_judge hw slots (hbased l (by simp))
    have hrest : ∀ m ∈ rest, m.IsBasedOn e := fun m hm => hbased m (List.mem_cons_of_mem l hm)
    rw [judgeAll, isBlocked_cons, List.any_cons]
    cases hverdict : l.judge slots with
    | holds =>
      rw [hverdict] at hspec htruth
      simp [hspec, htruth, Outcome.holdsIn]
    | fails =>
      rw [hverdict] at hspec htruth
      simp [hspec, htruth, ih hrest hfound]
    | undecided g =>
      rw [hverdict] at hspec htruth
      simp only [hspec, htruth, ih hrest (pairwise_insertLiteral hfound),
        World.satisfies_insertLiteral]
      simp [Bool.or_left_comm, Bool.or_assoc]
    | undefined =>
      rw [hverdict] at hspec htruth
      simp [hspec, Outcome.holdsIn]

theorem judgeAll_eq_skipped_iff (slots : List Denotation) (literals : List ResolvedLiteral)
    (found : List GroundLiteral) :
    judgeAll slots literals found = .skipped ↔ isBlocked slots literals = true := by
  induction literals generalizing found with
  | nil =>
    rw [judgeAll]
    split <;> simp [isBlocked]
  | cons l rest ih =>
    have hspec := l.judge_spec slots
    rw [judgeAll, isBlocked_cons]
    cases hverdict : l.judge slots with
    | holds =>
      rw [hverdict] at hspec
      simp [hspec]
    | fails =>
      rw [hverdict] at hspec
      simp [hspec, ih]
    | undecided g =>
      rw [hverdict] at hspec
      simp [hspec, ih]
    | undefined =>
      rw [hverdict] at hspec
      simp [hspec]

/-- Grounding skips the substitutions that are to be skipped and no others. -/
theorem outcome_eq_skipped_iff {c : ResolvedClause} {binding : List Nat} :
    c.outcome binding = .skipped ↔ c.skips binding = true := by
  rw [outcome, skips]
  split
  · rename_i hmet
    rw [judgeAll_eq_skipped_iff, hmet, Bool.not_true, Bool.false_or]
  · rename_i hmet
    rw [Bool.not_eq_true] at hmet
    rw [hmet]
    exact ⟨fun _ => rfl, fun _ => rfl⟩

/-- The outcome of a substitution is true where the substitution is not skipped and true. -/
theorem holdsIn_outcome {e : Evidence} {w : World} (hw : e.AgreesWith w) {c : ResolvedClause}
    (hbased : c.IsBasedOn e) (binding : List Nat) :
    (c.outcome binding).holdsIn w = (!c.skips binding && c.holdsIn w binding) := by
  rw [outcome, skips, holdsIn]
  split
  · rename_i hmet
    rw [holdsIn_judgeAll hw _ hbased .nil, hmet]
    simp [World.satisfies]
  · rename_i hmet
    rw [Bool.not_eq_true] at hmet
    rw [hmet]
    rfl

end ResolvedClause

end LogicNetwork
