import Mathlib.Data.Fintype.Card
import LogicNetwork.Proofs.ExactWeight
import LogicNetwork.Proofs.Search.Occurrences
import LogicNetwork.Search.Propagate

/-!
# Forced values

What the active constraints force is what they have in common: every assignment in which all of them
are in their preferred state has the forced values, and a conflict says that there is none
(`SearchState.propagate_spec`).  The forced values are complete for the two rules by which they are
found: no active constraint is left that has lost all its literals or all but one, and none that
wants to be false has a literal that is not false (`GraphConstraint.IsSettled`).

A single constraint, a sweep and all sweeps together are steps of one kind (`Forced.IsForcing`):
they keep the values that there are, and either find nothing new or leave fewer atoms open.  So the
sweeps come to an end by themselves, and the bound on their number never cuts them short
(`SearchState.settles_sweeps`).
-/

namespace LogicNetwork

/-! ### Values that are known -/

namespace Forced

variable {atoms : Nat} {forced next last : Forced atoms} {truth : Vector Bool atoms}
  {a : Fin atoms} {isNew isNew' : Bool}

/-- Whether an assignment has all forced values. -/
def AgreesWith (forced : Forced atoms) (truth : Vector Bool atoms) : Prop :=
  ∀ (a : Fin atoms) (value : Bool), forced.get a = some value → truth.get a = value

/-- The atoms without a value. -/
def openAtoms (forced : Forced atoms) : Finset (Fin atoms) :=
  Finset.univ.filter fun a => forced.get a = none

theorem mem_openAtoms : a ∈ openAtoms forced ↔ forced.get a = none := by
  simp [openAtoms]

/-- Whether values are kept, and further ones are found exactly if there is said to be a new one. -/
structure Grows (forced next : Forced atoms) (isNew : Bool) : Prop where
  keeps : ∀ (a : Fin atoms) (value : Bool), forced.get a = some value → next.get a = some value
  eq_of_isNew_false : isNew = false → next = forced
  openAtoms_ssubset : isNew = true → openAtoms next ⊂ openAtoms forced

theorem Grows.refl (forced : Forced atoms) : Grows forced forced false :=
  ⟨fun _ _ hvalue => hvalue, fun _ => rfl, nofun⟩

theorem Grows.openAtoms_subset (h : Grows forced next isNew) :
    openAtoms next ⊆ openAtoms forced := by
  intro a ha
  rw [mem_openAtoms] at ha ⊢
  cases hvalue : forced.get a with
  | none => rfl
  | some value =>
    have hkept := h.keeps a value hvalue
    rw [ha] at hkept
    cases hkept

theorem Grows.trans (h : Grows forced next isNew) (h' : Grows next last isNew') :
    Grows forced last (isNew || isNew') := by
  refine ⟨fun a value hvalue => h'.keeps a value (h.keeps a value hvalue), ?_, ?_⟩
  · intro hnone
    rw [Bool.or_eq_false_iff] at hnone
    rw [h'.eq_of_isNew_false hnone.2, h.eq_of_isNew_false hnone.1]
  · intro hsome
    rcases (Bool.or_eq_true _ _).mp hsome with hnew | hnew
    · exact Finset.ssubset_of_subset_of_ssubset h'.openAtoms_subset (h.openAtoms_ssubset hnew)
    · exact Finset.ssubset_of_ssubset_of_subset (h'.openAtoms_ssubset hnew) h.openAtoms_subset

/-- Giving a value to an atom without one is a step. -/
theorem grows_set (ha : forced.get a = none) (value : Bool) :
    Grows forced (forced.set a (some value) a.isLt) true := by
  have hkeeps : ∀ (b : Fin atoms) (other : Bool), forced.get b = some other →
      (forced.set a (some value) a.isLt).get b = some other := by
    intro b other hb
    have hne : a ≠ b := by
      rintro rfl
      rw [ha] at hb
      cases hb
    rw [get_set, if_neg hne]
    exact hb
  refine ⟨hkeeps, nofun, fun _ => ?_⟩
  have hclosed : a ∉ openAtoms (forced.set a (some value) a.isLt) := by
    rw [mem_openAtoms, get_set, if_pos rfl]
    exact Option.some_ne_none value
  refine ⟨fun b hb => ?_, fun hsubset => hclosed (hsubset (mem_openAtoms.mpr ha))⟩
  rw [mem_openAtoms, get_set] at hb
  split_ifs at hb
  exact mem_openAtoms.mpr hb

theorem AgreesWith.set (h : forced.AgreesWith truth) (a : Fin atoms) :
    AgreesWith (forced.set a (some (truth.get a)) a.isLt) truth := by
  intro b value hb
  rw [get_set] at hb
  split_ifs at hb with hab
  · rw [← hab]
    exact Option.some.inj hb
  · exact h b value hb

/-! ### Steps -/

/-- Whether a step forces no more than a condition on assignments does: it grows the values, all
assignments of the condition keep agreeing, and on a conflict there is none. -/
def IsForcing (condition : Vector Bool atoms → Prop) (forced : Forced atoms) :
    Option (Forced atoms × Bool) → Prop
  | none => ∀ truth, forced.AgreesWith truth → ¬ condition truth
  | some (next, isNew) => forced.Grows next isNew ∧
      ∀ truth, forced.AgreesWith truth → condition truth → next.AgreesWith truth

/-- A step after another one; there is something new if one of them finds it. -/
def andThen (first : Option (Forced atoms × Bool))
    (second : Forced atoms → Option (Forced atoms × Bool)) : Option (Forced atoms × Bool) :=
  first.bind fun (next, isNew) => (second next).map fun (last, isNew') => (last, isNew || isNew')

variable {condition other : Vector Bool atoms → Prop} {first : Option (Forced atoms × Bool)}
  {second : Forced atoms → Option (Forced atoms × Bool)}

theorem andThen_eq_some_false (h : andThen first second = some (last, false)) :
    ∃ next, first = some (next, false) ∧ second next = some (last, false) := by
  obtain ⟨⟨next, isNew⟩, hfirst, h⟩ := Option.bind_eq_some_iff.mp h
  obtain ⟨⟨last', isNew'⟩, hsecond, h⟩ := Option.map_eq_some_iff.mp h
  simp only [Prod.mk.injEq, Bool.or_eq_false_iff] at h
  obtain ⟨rfl, rfl, rfl⟩ := h
  exact ⟨next, hfirst, hsecond⟩

theorem IsForcing.andThen (hfirst : IsForcing condition forced first)
    (hsecond : ∀ next, IsForcing other next (second next)) :
    IsForcing (fun truth => condition truth ∧ other truth) forced (andThen first second) := by
  match first, hfirst with
  | none, hconflict => exact fun truth hagrees hboth => hconflict truth hagrees hboth.1
  | some (next, isNew), ⟨hgrows, hagree⟩ =>
    have hnext := hsecond next
    show IsForcing _ forced ((second next).map fun x => (x.1, isNew || x.2))
    match second next, hnext with
    | none, hconflict =>
      exact fun truth hagrees hboth =>
        hconflict truth (hagree truth hagrees hboth.1) hboth.2
    | some (last, isNew'), ⟨hgrows', hagree'⟩ =>
      exact ⟨hgrows.trans hgrows', fun truth hagrees hboth =>
        hagree' truth (hagree truth hagrees hboth.1) hboth.2⟩

theorem IsForcing.congr {result : Option (Forced atoms × Bool)}
    (h : IsForcing condition forced result) (hsame : ∀ truth, other truth ↔ condition truth) :
    IsForcing other forced result := by
  have heq : other = condition := funext fun truth => propext (hsame truth)
  rw [heq]
  exact h

end Forced

/-! ### One constraint -/

namespace GraphConstraint

variable {α : Type} {atoms : Nat} {c : GraphConstraint α atoms} {forced : Forced atoms}
  {truth : Vector Bool atoms}

/-- Whether forced values make a literal false. -/
def IsLost (forced : Forced atoms) (l : Fin atoms × Bool) : Prop :=
  forced.get l.1 = some !l.2

theorem IsLost.get_eq {l : Fin atoms × Bool} (h : IsLost forced l)
    (hagrees : forced.AgreesWith truth) : truth.get l.1 = !l.2 :=
  hagrees l.1 (!l.2) h

/-- A literal that forced values do not make true is open or lost. -/
theorem get_eq_none_or_isLost {l : Fin atoms × Bool} (h : forced.get l.1 ≠ some l.2) :
    forced.get l.1 = none ∨ IsLost forced l := by
  unfold IsLost
  cases hvalue : forced.get l.1 with
  | none => exact .inl rfl
  | some value =>
    right
    rw [hvalue, ne_eq, Option.some.injEq] at h
    exact congrArg some (Bool.eq_not.mpr h)

/-- Whether all literals of a constraint but the one at some place are lost, and that one is
open. -/
def HasSingleOpen (c : GraphConstraint α atoms) (forced : Forced atoms) : Prop :=
  ∃ before l after, c.literals = before ++ l :: after ∧ forced.get l.1 = none ∧
    ∀ k ∈ before ++ after, IsLost forced k

/-- The four ways in which a constraint that wants to be true can stand. -/
theorem forceTrue_cases (c : GraphConstraint α atoms) (forced : Forced atoms) :
    (∃ l ∈ c.literals, forced.get l.1 = some l.2 ∧ c.forceTrue forced = some (forced, false)) ∨
    ((∀ l ∈ c.literals, forced.get l.1 ≠ some l.2) ∧
      ((c.openLiterals forced = [] ∧ c.forceTrue forced = none) ∨
      (∃ l, c.openLiterals forced = [l] ∧
        c.forceTrue forced = some (forced.set l.1 (some l.2) l.1.isLt, true)) ∨
      ∃ k l rest, c.openLiterals forced = k :: l :: rest ∧
        c.forceTrue forced = some (forced, false))) := by
  unfold forceTrue
  split_ifs with htrue
  · rw [List.any_eq_true] at htrue
    obtain ⟨l, hl, hvalue⟩ := htrue
    exact .inl ⟨l, hl, beq_iff_eq.mp hvalue, rfl⟩
  · have hnone : ∀ l ∈ c.literals, forced.get l.1 ≠ some l.2 := by
      intro l hl hvalue
      exact htrue (List.any_eq_true.mpr ⟨l, hl, beq_iff_eq.mpr hvalue⟩)
    refine .inr ⟨hnone, ?_⟩
    match c.openLiterals forced with
    | [] => exact .inl ⟨rfl, rfl⟩
    | [l] => exact .inr (.inl ⟨l, rfl, rfl⟩)
    | k :: l :: rest => exact .inr (.inr ⟨k, l, rest, rfl, rfl⟩)

theorem mem_openLiterals {l : Fin atoms × Bool} :
    l ∈ c.openLiterals forced ↔ l ∈ c.literals ∧ forced.get l.1 = none := by
  rw [openLiterals, List.mem_filter, Option.isNone_iff_eq_none]

/-- If no literal is true yet, the literals that are true in the end are open ones. -/
theorem exists_openLiteral (hnone : ∀ l ∈ c.literals, forced.get l.1 ≠ some l.2)
    (hagrees : forced.AgreesWith truth) (hgood : ∃ l ∈ c.literals, truth.get l.1 = l.2) :
    ∃ l ∈ c.openLiterals forced, truth.get l.1 = l.2 := by
  obtain ⟨l, hl, htruth⟩ := hgood
  rcases get_eq_none_or_isLost (hnone l hl) with hopen | hlost
  · exact ⟨l, mem_openLiterals.mpr ⟨hl, hopen⟩, htruth⟩
  · have hfalse := hlost.get_eq hagrees
    rw [htruth] at hfalse
    exact absurd hfalse.symm (Bool.not_ne_self l.2)

theorem isForcing_forceTrue (c : GraphConstraint α atoms) (forced : Forced atoms) :
    forced.IsForcing (fun truth => ∃ l ∈ c.literals, truth.get l.1 = l.2)
      (c.forceTrue forced) := by
  obtain ⟨-, -, -, heq⟩ | ⟨hnone, ⟨hopen, heq⟩ | ⟨l, hopen, heq⟩ | ⟨-, -, -, -, heq⟩⟩ :=
    c.forceTrue_cases forced
  · rw [heq]
    exact ⟨.refl forced, fun _ hagrees _ => hagrees⟩
  · rw [heq]
    intro truth hagrees hgood
    obtain ⟨l, hl, -⟩ := exists_openLiteral hnone hagrees hgood
    rw [hopen] at hl
    cases hl
  · -- the only open literal has to be the true one
    have hl : l ∈ c.openLiterals forced := by
      rw [hopen]
      exact List.mem_singleton_self l
    rw [heq]
    refine ⟨Forced.grows_set (mem_openLiterals.mp hl).2 l.2, fun truth hagrees hgood => ?_⟩
    obtain ⟨k, hk, htruth⟩ := exists_openLiteral hnone hagrees hgood
    rw [hopen, List.mem_singleton] at hk
    subst hk
    rw [← htruth]
    exact hagrees.set k.1
  · rw [heq]
    exact ⟨.refl forced, fun _ hagrees _ => hagrees⟩

/-- Where nothing is left to force, a constraint that wants to be true has a true literal or at
least two open ones. -/
theorem not_lost_of_forceTrue (h : c.forceTrue forced = some (forced, false)) :
    ¬ (∀ l ∈ c.literals, IsLost forced l) ∧ ¬ c.HasSingleOpen forced := by
  have hnotLost : ∀ l : Fin atoms × Bool, forced.get l.1 = none → ¬ IsLost forced l := by
    intro l hopen hlost
    rw [IsLost, hopen] at hlost
    cases hlost
  obtain ⟨l, hl, hvalue, -⟩ | ⟨hnone, ⟨-, heq⟩ | ⟨l, hopen, heq⟩ | ⟨k, l, rest, hopen, -⟩⟩ :=
    c.forceTrue_cases forced
  · have htrue : ¬ IsLost forced l := by
      rw [IsLost, hvalue, Option.some.injEq]
      exact fun hfalse => Bool.not_ne_self l.2 hfalse.symm
    refine ⟨fun hall => htrue (hall l hl), ?_⟩
    rintro ⟨before, k, after, hliterals, hopen, hothers⟩
    rw [hliterals, List.mem_append, List.mem_cons] at hl
    rcases hl with hl | rfl | hl
    · exact htrue (hothers l (List.mem_append_left _ hl))
    · rw [hvalue] at hopen
      cases hopen
    · exact htrue (hothers l (List.mem_append_right _ hl))
  · rw [heq] at h
    cases h
  · rw [heq, Option.some.injEq, Prod.mk.injEq] at h
    cases h.2
  · have hk : k ∈ c.openLiterals forced := by
      rw [hopen]
      exact List.mem_cons_self
    obtain ⟨hmem, hkopen⟩ := mem_openLiterals.mp hk
    refine ⟨fun hall => hnotLost k hkopen (hall k hmem), ?_⟩
    rintro ⟨before, j, after, hliterals, hjopen, hothers⟩
    -- only one literal would be open
    have hlostFiltered : ∀ ls : List (Fin atoms × Bool), (∀ l ∈ ls, IsLost forced l) →
        ls.filter (fun l => (forced.get l.1).isNone) = [] := by
      intro ls hls
      rw [List.filter_eq_nil_iff]
      intro l hl hopen
      exact hnotLost l (Option.isNone_iff_eq_none.mp hopen) (hls l hl)
    have hsingle : c.openLiterals forced = [j] := by
      rw [openLiterals, hliterals, List.filter_append, List.filter_cons_of_pos (by simp [hjopen]),
        hlostFiltered before fun l hl => hothers l (List.mem_append_left _ hl),
        hlostFiltered after fun l hl => hothers l (List.mem_append_right _ hl)]
      rfl
    rw [hsingle] at hopen
    cases hopen

/-- Forces one literal false. -/
def forceLost (forced : Forced atoms) (l : Fin atoms × Bool) : Option (Forced atoms × Bool) :=
  forceFalse [l] (forced, false)

theorem isForcing_forceLost (forced : Forced atoms) (l : Fin atoms × Bool) :
    forced.IsForcing (fun truth => truth.get l.1 = !l.2) (forceLost forced l) := by
  rw [forceLost, forceFalse]
  split
  · rename_i value hvalue
    split_ifs with htrue
    · intro truth hagrees hfalse
      rw [hagrees l.1 value hvalue, beq_iff_eq.mp htrue] at hfalse
      exact Bool.not_ne_self l.2 hfalse.symm
    · exact ⟨.refl forced, fun _ hagrees _ => hagrees⟩
  · rename_i hopen
    refine ⟨Forced.grows_set hopen _, fun truth hagrees hfalse => ?_⟩
    rw [← hfalse]
    exact hagrees.set l.1

theorem isLost_of_forceLost {l : Fin atoms × Bool}
    (h : forceLost forced l = some (forced, false)) : IsLost forced l := by
  rw [forceLost, forceFalse] at h
  split at h
  · rename_i value hvalue
    split_ifs at h with htrue
    rw [IsLost, hvalue, Bool.eq_not.mpr (fun heq => htrue (beq_iff_eq.mpr heq))]
  · simp only [forceFalse, Option.some.injEq, Prod.mk.injEq] at h
    cases h.2

/-- Whether there is something new already does not matter for what is forced. -/
theorem forceFalse_cons (l : Fin atoms × Bool) (rest : List (Fin atoms × Bool)) (isNew : Bool) :
    forceFalse (l :: rest) (forced, isNew) =
      Forced.andThen ((forceLost forced l).map fun x => (x.1, isNew || x.2))
        fun next => forceFalse rest (next, false) := by
  have hflag : ∀ (ls : List (Fin atoms × Bool)) (forced : Forced atoms) (isNew : Bool),
      forceFalse ls (forced, isNew) =
        (forceFalse ls (forced, false)).map fun x => (x.1, isNew || x.2) := by
    intro ls
    induction ls with
    | nil =>
      intro forced isNew
      simp [forceFalse]
    | cons k ls ih =>
      intro forced isNew
      rw [forceFalse, forceFalse]
      split
      · split_ifs
        · rfl
        · exact ih forced isNew
      · rw [ih _ true, Option.map_map]
        simp [Function.comp_def]
  cases hvalue : forced.get l.1 with
  | none =>
    simp only [forceFalse, forceLost, hvalue]
    rw [hflag]
    simp [Forced.andThen]
  | some value =>
    simp only [forceFalse, forceLost, hvalue]
    split_ifs
    · rfl
    · rw [hflag]
      simp [Forced.andThen]

theorem isForcing_forceFalse (literals : List (Fin atoms × Bool)) (forced : Forced atoms) :
    forced.IsForcing (fun truth => ∀ l ∈ literals, truth.get l.1 = !l.2)
      (forceFalse literals (forced, false)) := by
  induction literals generalizing forced with
  | nil => exact ⟨.refl forced, fun _ hagrees _ => hagrees⟩
  | cons l rest ih =>
    rw [forceFalse_cons]
    simp only [Bool.false_or, Option.map_id']
    exact ((isForcing_forceLost forced l).andThen ih).congr fun truth => List.forall_mem_cons

/-- Where nothing is left to force, all literals are lost. -/
theorem isLost_of_forceFalse {literals : List (Fin atoms × Bool)}
    (h : forceFalse literals (forced, false) = some (forced, false)) :
    ∀ l ∈ literals, IsLost forced l := by
  induction literals with
  | nil => exact fun l hl => nomatch hl
  | cons l rest ih =>
    rw [forceFalse_cons] at h
    simp only [Bool.false_or, Option.map_id'] at h
    obtain ⟨next, hfirst, hrest⟩ := Forced.andThen_eq_some_false h
    have hforcing := isForcing_forceLost forced l
    rw [hfirst] at hforcing
    obtain rfl := hforcing.1.eq_of_isNew_false rfl
    rw [List.forall_mem_cons]
    exact ⟨isLost_of_forceLost hfirst, ih hrest⟩

variable [WeightArithmetic α]

/-- Whether a constraint forces nothing more: one that wants to be true has not lost all its
literals, nor all but a single open one, and one that wants to be false has lost all of them. -/
structure IsSettled (c : GraphConstraint α atoms) (forced : Forced atoms) : Prop where
  not_lost : c.weight.wantsTrue = true → ¬ ∀ l ∈ c.literals, IsLost forced l
  not_single : c.weight.wantsTrue = true → ¬ c.HasSingleOpen forced
  isLost : c.weight.wantsTrue = false → ∀ l ∈ c.literals, IsLost forced l

theorem isForcing_force (c : GraphConstraint α atoms) (forced : Forced atoms) :
    forced.IsForcing (fun truth => c.isGoodIn truth = true) (c.force forced) := by
  unfold force
  split_ifs with hwants
  · exact (isForcing_forceTrue c forced).congr fun truth => isGoodIn_iff_exists hwants
  · rw [Bool.not_eq_true] at hwants
    exact (isForcing_forceFalse c.literals forced).congr fun truth => isGoodIn_iff_forall hwants

theorem isSettled_of_force (h : c.force forced = some (forced, false)) : c.IsSettled forced := by
  unfold force at h
  split_ifs at h with hwants
  · obtain ⟨hlost, hsingle⟩ := not_lost_of_forceTrue h
    refine ⟨fun _ => hlost, fun _ => hsingle, fun hfalse => ?_⟩
    rw [hwants] at hfalse
    cases hfalse
  · exact ⟨fun htrue => absurd htrue hwants, fun htrue => absurd htrue hwants,
      fun _ => isLost_of_forceFalse h⟩

end GraphConstraint

/-! ### Sweeps -/

namespace SearchState

variable {α : Type} [WeightArithmetic α] {g : SearchGraph α} {s : SearchState g}
  {forced : Forced g.atoms}

/-- Whether all active constraints are in their preferred state in an assignment. -/
def IsModel (s : SearchState g) (truth : Vector Bool g.atoms) : Prop :=
  ∀ c, s.active.get c = true → (g.constraintAt c).isGoodIn truth = true

/-- Forces what one constraint needs, if it is active. -/
def forceAt (s : SearchState g) (c : Fin g.size) (forced : Forced g.atoms) :
    Option (Forced g.atoms × Bool) :=
  if s.active.get c then (g.constraintAt c).force forced else some (forced, false)

theorem isForcing_forceAt (s : SearchState g) (c : Fin g.size) (forced : Forced g.atoms) :
    forced.IsForcing
      (fun truth => s.active.get c = true → (g.constraintAt c).isGoodIn truth = true)
      (s.forceAt c forced) := by
  unfold forceAt
  split_ifs with hactive
  · exact ((g.constraintAt c).isForcing_force forced).congr fun truth => forall_prop_of_true hactive
  · exact ⟨.refl forced, fun _ hagrees _ => hagrees⟩

theorem sweep_cons (s : SearchState g) (c : Fin g.size) (cs : List (Fin g.size))
    (forced : Forced g.atoms) : s.sweep (c :: cs) (forced, false) =
      Forced.andThen (s.forceAt c forced) fun next => s.sweep cs (next, false) := by
  have hflag : ∀ (cs : List (Fin g.size)) (forced : Forced g.atoms) (isNew : Bool),
      s.sweep cs (forced, isNew) = (s.sweep cs (forced, false)).map fun x => (x.1, isNew || x.2) := by
    intro cs
    induction cs with
    | nil =>
      intro forced isNew
      simp [sweep]
    | cons c cs ih =>
      intro forced isNew
      rw [sweep, sweep]
      split_ifs
      · split
        · rfl
        · rename_i next changed _
          rw [ih next (isNew || changed), ih next (false || changed), Option.map_map]
          simp [Function.comp_def, Bool.or_assoc]
      · exact ih forced isNew
  rw [sweep, forceAt]
  split_ifs
  · split
    · rename_i hconflict
      rw [hconflict]
      rfl
    · rename_i next changed hnext
      rw [hnext, hflag, Bool.false_or]
      rfl
  · simp [Forced.andThen]

/-- A sweep forces what its constraints do together. -/
theorem isForcing_sweep (s : SearchState g) (cs : List (Fin g.size)) (forced : Forced g.atoms) :
    forced.IsForcing
      (fun truth => ∀ c ∈ cs, s.active.get c = true → (g.constraintAt c).isGoodIn truth = true)
      (s.sweep cs (forced, false)) := by
  induction cs generalizing forced with
  | nil => exact ⟨.refl forced, fun _ hagrees _ => hagrees⟩
  | cons c cs ih =>
    rw [sweep_cons]
    exact ((s.isForcing_forceAt c forced).andThen ih).congr fun truth => List.forall_mem_cons

/-- After a sweep that finds nothing new, every constraint is settled. -/
theorem isSettled_of_sweep {cs : List (Fin g.size)}
    (h : s.sweep cs (forced, false) = some (forced, false)) {c : Fin g.size} (hc : c ∈ cs)
    (hactive : s.active.get c = true) : (g.constraintAt c).IsSettled forced := by
  induction cs with
  | nil => cases hc
  | cons d cs ih =>
    rw [sweep_cons] at h
    obtain ⟨next, hfirst, hrest⟩ := Forced.andThen_eq_some_false h
    have hforcing := s.isForcing_forceAt d forced
    rw [hfirst] at hforcing
    obtain rfl := hforcing.1.eq_of_isNew_false rfl
    rcases List.mem_cons.mp hc with rfl | hc
    · rw [forceAt, if_pos hactive] at hfirst
      exact GraphConstraint.isSettled_of_force hfirst
    · exact ih hrest hc

/-! ### Sweeping until nothing is new -/

/-- Sweeping on, without a bound, until a sweep ends in a conflict or finds nothing new: from some
values, this comes to an end with a result. -/
inductive Settles (s : SearchState g) : Forced g.atoms → Option (Forced g.atoms) → Prop
  | conflict {forced : Forced g.atoms} (h : s.sweep (List.finRange g.size) (forced, false) = none) :
      s.Settles forced none
  | rest {forced next : Forced g.atoms}
      (h : s.sweep (List.finRange g.size) (forced, false) = some (next, false)) :
      s.Settles forced (some next)
  | again {forced next : Forced g.atoms} {result : Option (Forced g.atoms)}
      (h : s.sweep (List.finRange g.size) (forced, false) = some (next, true))
      (hnext : s.Settles next result) : s.Settles forced result

/-- One sweep more than there are open atoms is enough: each that finds something new closes one. -/
theorem settles_sweeps (s : SearchState g) {n : Nat} (forced : Forced g.atoms)
    (hn : (Forced.openAtoms forced).card ≤ n) : s.Settles forced (s.sweeps (n + 1) forced) := by
  induction n generalizing forced with
  | zero =>
    rw [sweeps]
    have hforcing := s.isForcing_sweep (List.finRange g.size) forced
    split
    · exact .conflict ‹_›
    · rename_i next hsweep
      -- no atom is open that could get a value
      rw [hsweep] at hforcing
      have hlt := Finset.card_lt_card (hforcing.1.openAtoms_ssubset rfl)
      omega
    · exact .rest ‹_›
  | succ n ih =>
    rw [sweeps]
    have hforcing := s.isForcing_sweep (List.finRange g.size) forced
    split
    · exact .conflict ‹_›
    · rename_i next hsweep
      rw [hsweep] at hforcing
      have hlt := Finset.card_lt_card (hforcing.1.openAtoms_ssubset rfl)
      exact .again hsweep (ih next (by omega))
    · exact .rest ‹_›

theorem not_isModel_of_settles (h : s.Settles forced none) {truth : Vector Bool g.atoms}
    (hagrees : forced.AgreesWith truth) : ¬ s.IsModel truth := by
  generalize hresult : (none : Option (Forced g.atoms)) = result at h
  induction h with
  | @conflict forced h =>
    have hforcing := s.isForcing_sweep (List.finRange g.size) forced
    rw [h] at hforcing
    exact fun hmodel => hforcing truth hagrees fun c _ => hmodel c
  | rest h => cases hresult
  | @again forced next result h _ ih =>
    have hforcing := s.isForcing_sweep (List.finRange g.size) forced
    rw [h] at hforcing
    exact fun hmodel => ih (hforcing.2 truth hagrees fun c _ => hmodel c) hresult hmodel

theorem spec_of_settles {result : Forced g.atoms} (h : s.Settles forced (some result)) :
    (∀ truth, forced.AgreesWith truth → s.IsModel truth → result.AgreesWith truth) ∧
      ∀ c, s.active.get c = true → (g.constraintAt c).IsSettled result := by
  generalize hresult : some result = found at h
  induction h with
  | conflict h => cases hresult
  | @rest forced next h =>
    have hforcing := s.isForcing_sweep (List.finRange g.size) forced
    rw [h] at hforcing
    obtain rfl := hforcing.1.eq_of_isNew_false rfl
    obtain rfl := Option.some.inj hresult
    exact ⟨fun truth hagrees _ => hagrees,
      fun c hactive => isSettled_of_sweep h (List.mem_finRange c) hactive⟩
  | @again forced next found h _ ih =>
    have hforcing := s.isForcing_sweep (List.finRange g.size) forced
    rw [h] at hforcing
    obtain ⟨hmodels, hsettled⟩ := ih hresult
    refine ⟨fun truth hagrees hmodel => ?_, hsettled⟩
    exact hmodels truth (hforcing.2 truth hagrees fun c _ => hmodel c) hmodel

/-- Sweeping comes to an end with what `propagate` gives.  Forced values are those of every
assignment in which all active constraints are in their preferred state, and they leave every active
constraint settled; if there is a conflict, there is no such assignment. -/
theorem propagate_spec (s : SearchState g) :
    s.Settles (Vector.replicate g.atoms none) s.propagate ∧
    (∀ forced, s.propagate = some forced →
      (∀ truth, s.IsModel truth → forced.AgreesWith truth) ∧
      ∀ c, s.active.get c = true → (g.constraintAt c).IsSettled forced) ∧
    (s.propagate = none → ∀ truth, ¬ s.IsModel truth) := by
  have hnone : ∀ a : Fin g.atoms,
      (Vector.replicate g.atoms (none : Option Bool)).get a = none :=
    fun a => Vector.getElem_replicate a.isLt
  have hagrees : ∀ truth, Forced.AgreesWith (Vector.replicate g.atoms none) truth := by
    intro truth a value hvalue
    rw [hnone] at hvalue
    cases hvalue
  have hcard : (Forced.openAtoms (Vector.replicate g.atoms none)).card ≤ g.atoms :=
    (Finset.card_le_univ _).trans_eq (Fintype.card_fin g.atoms)
  have hsettles : s.Settles (Vector.replicate g.atoms none) s.propagate :=
    s.settles_sweeps _ hcard
  refine ⟨hsettles, fun forced hforced => ?_, fun hconflict truth => ?_⟩
  · rw [hforced] at hsettles
    obtain ⟨hmodels, hsettled⟩ := spec_of_settles hsettles
    exact ⟨fun truth => hmodels truth (hagrees truth), hsettled⟩
  · rw [hconflict] at hsettles
    exact not_isModel_of_settles hsettles (hagrees truth)

/-- A unit constraint forces its atom, which leaves another constraint its second literal; a third
one that wants both atoms false then is in conflict. -/
example :
    let propagated (constraints : Array (GraphConstraint ℚ 2)) :=
      (((start (SearchGraph.ofConstraints 2 constraints) .count #v[false, false]).setActiveWhere
        fun _ => true).propagate).map Vector.toList
    propagated #[⟨[(0, false), (1, true)], .soft 1⟩, ⟨[(0, true)], .hard true⟩] =
        some [some true, some true] ∧
      propagated #[⟨[(0, false), (1, true)], .soft 1⟩, ⟨[(0, true)], .hard true⟩,
        ⟨[(1, true), (0, true)], .soft (-1)⟩] = none := by
  decide +kernel

end SearchState

end LogicNetwork
