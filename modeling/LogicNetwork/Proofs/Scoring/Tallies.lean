import LogicNetwork.Proofs.Lists
import LogicNetwork.Scoring
import Mathlib.Data.List.Induction

/-!
# Tallies of outcomes

Scoring goes through outcomes, each of a signature, and keeps counts by signature in a sorted list.
The list is read through `countsAt`, and a write to it shows at its signature alone
(`countsAt_recordFor`).  In the end every signature that has come up has its counts, and the counts
of all outcomes are the sum of these (`Evaluation.isTallyOf_recordAll`).
-/

namespace LogicNetwork

/-! ### The order of signatures -/

namespace Signature

variable {s t u : Signature}

theorem before_iff :
    s.before t = true ↔ s.symbol < t.symbol ∨ s.symbol = t.symbol ∧ s.arity < t.arity := by
  simp [before]

theorem before_irrefl (s : Signature) : s.before s = false := by
  rw [← Bool.not_eq_true, before_iff]
  rintro (hlt | ⟨-, hlt⟩)
  · exact String.lt_irrefl _ hlt
  · exact Nat.lt_irrefl _ hlt

theorem before_trans (hst : s.before t = true) (htu : t.before u = true) : s.before u = true := by
  rw [before_iff] at *
  rcases hst with hst | ⟨hst, harity⟩ <;> rcases htu with htu | ⟨htu, harity'⟩
  · exact .inl (String.lt_trans hst htu)
  · exact .inl (htu ▸ hst)
  · exact .inl (hst ▸ htu)
  · exact .inr ⟨hst.trans htu, Nat.lt_trans harity harity'⟩

theorem before_of_ne (hne : s ≠ t) (h : ¬ s.before t = true) : t.before s = true := by
  rw [before_iff] at *
  rcases Std.lt_trichotomy s.symbol t.symbol with hlt | heq | hgt
  · exact absurd (.inl hlt) h
  · refine .inr ⟨heq.symm, ?_⟩
    rcases Nat.lt_trichotomy s.arity t.arity with hlt | harity | hgt
    · exact absurd (.inr ⟨heq, hlt⟩) h
    · have hsame : s = t := by
        cases s
        cases t
        cases heq
        cases harity
        rfl
      exact absurd hsame hne
    · exact hgt
  · exact .inl hgt

end Signature

/-! ### Counts -/

namespace Confusion

variable {a b : Confusion} {recognized annotated : Bool}

/-- The counts of outcomes, each of which says whether an atom is recognised and whether it is
annotated. -/
def tallyOf (outcomes : List (Bool × Bool)) : Confusion where
  truePositives := outcomes.count (true, true)
  falsePositives := outcomes.count (true, false)
  falseNegatives := outcomes.count (false, true)
  trueNegatives := outcomes.count (false, false)

/-- The sum of counts, each on its own. -/
def sum (counts : List Confusion) : Confusion :=
  counts.foldr add zero

theorem record_tallyOf (outcomes : List (Bool × Bool)) (recognized annotated : Bool) :
    (tallyOf outcomes).record recognized annotated =
      tallyOf (outcomes ++ [(recognized, annotated)]) := by
  cases recognized <;> cases annotated <;> simp [tallyOf, record, List.count_append]

theorem add_record (a b : Confusion) :
    a.add (b.record recognized annotated) = (a.add b).record recognized annotated := by
  cases recognized <;> cases annotated <;> rfl

theorem record_add (a b : Confusion) :
    (a.record recognized annotated).add b = (a.add b).record recognized annotated := by
  cases recognized <;> cases annotated <;> simp only [record, add, Nat.add_right_comm]

theorem zero_add (a : Confusion) : zero.add a = a := by
  simp [zero, add]

end Confusion

/-! ### Counts by signature -/

/-- The counts of a signature in a list of counts by signature. -/
def countsAt (entries : List (Signature × Confusion)) (s : Signature) : Confusion :=
  ((entries.find? fun x => x.1 == s).map Prod.snd).getD .zero

section Entries

variable {s t : Signature} {recognized annotated : Bool} {x : Signature × Confusion}
  {entries : List (Signature × Confusion)}

theorem countsAt_cons :
    countsAt (x :: entries) s = if x.1 = s then x.2 else countsAt entries s := by
  unfold countsAt
  rw [List.find?_cons]
  by_cases h : x.1 = s
  · rw [if_pos h, beq_iff_eq.mpr h]
    rfl
  · rw [if_neg h, beq_eq_false_iff_ne.mpr h]

theorem mem_recordFor (h : x ∈ recordFor s recognized annotated entries) :
    x.1 = s ∨ x ∈ entries := by
  induction entries with
  | nil => exact .inl (congrArg Prod.fst (List.mem_singleton.mp h))
  | cons y entries ih =>
    rw [recordFor] at h
    split_ifs at h with hsame hbefore
    · rcases List.mem_cons.mp h with rfl | h
      · exact .inl hsame.symm
      · exact .inr (List.mem_cons_of_mem y h)
    · rcases List.mem_cons.mp h with rfl | h
      · exact .inl rfl
      · exact .inr h
    · rcases List.mem_cons.mp h with rfl | h
      · exact .inr List.mem_cons_self
      · exact (ih h).imp_right (List.mem_cons_of_mem y)

theorem pairwise_recordFor (h : entries.Pairwise fun x y => x.1.before y.1 = true) :
    (recordFor s recognized annotated entries).Pairwise fun x y => x.1.before y.1 = true := by
  induction entries with
  | nil => exact List.pairwise_singleton _ _
  | cons y entries ih =>
    obtain ⟨hy, hrest⟩ := List.pairwise_cons.mp h
    rw [recordFor]
    split_ifs with hsame hbefore
    · exact List.pairwise_cons.mpr ⟨hy, hrest⟩
    · refine List.pairwise_cons.mpr ⟨fun z hz => ?_, h⟩
      rcases List.mem_cons.mp hz with rfl | hz
      · exact hbefore
      · exact Signature.before_trans hbefore (hy z hz)
    · refine List.pairwise_cons.mpr ⟨fun z hz => ?_, ih hrest⟩
      rcases mem_recordFor hz with rfl | hz
      · exact Signature.before_of_ne hsame hbefore
      · exact hy z hz

theorem countsAt_of_forall_before (h : ∀ x ∈ entries, s.before x.1 = true) :
    countsAt entries s = .zero := by
  have hnone : entries.find? (fun x => x.1 == s) = none := by
    rw [List.find?_eq_none]
    intro x hx heq
    have hbefore := h x hx
    rw [beq_iff_eq.mp heq, Signature.before_irrefl] at hbefore
    cases hbefore
  rw [countsAt, hnone]
  rfl

/-- In a sorted list, recording an outcome shows at its signature alone. -/
theorem countsAt_recordFor (h : entries.Pairwise fun x y => x.1.before y.1 = true) :
    countsAt (recordFor s recognized annotated entries) t =
      if s = t then (countsAt entries s).record recognized annotated else countsAt entries t := by
  induction entries with
  | nil =>
    rw [recordFor, countsAt_cons]
    rfl
  | cons y entries ih =>
    obtain ⟨hy, hrest⟩ := List.pairwise_cons.mp h
    rw [recordFor]
    by_cases hsame : s = y.1
    · rw [if_pos hsame, countsAt_cons, countsAt_cons, countsAt_cons, if_pos hsame.symm, hsame]
      split_ifs <;> rfl
    · rw [if_neg hsame]
      by_cases hbefore : s.before y.1 = true
      · -- the signature comes up for the first time
        have hzero : countsAt (y :: entries) s = .zero := by
          refine countsAt_of_forall_before fun x hx => ?_
          rcases List.mem_cons.mp hx with rfl | hx
          · exact hbefore
          · exact Signature.before_trans hbefore (hy x hx)
        rw [if_pos hbefore, countsAt_cons, hzero]
      · rw [if_neg hbefore, countsAt_cons, countsAt_cons, countsAt_cons, ih hrest,
          if_neg (Ne.symm hsame)]
        by_cases hst : s = t
        · rw [if_pos hst, if_pos hst, if_neg fun hyt => hsame (hst.trans hyt.symm)]
        · rw [if_neg hst, if_neg hst]

theorem mem_keys_recordFor :
    t ∈ (recordFor s recognized annotated entries).map Prod.fst ↔
      t = s ∨ t ∈ entries.map Prod.fst := by
  induction entries with
  | nil => simp [recordFor]
  | cons y entries ih =>
    rw [recordFor]
    split_ifs with hsame hbefore
    · simp [hsame]
    · simp
    · rw [List.map_cons, List.mem_cons, ih, List.map_cons, List.mem_cons]
      tauto

theorem sum_recordFor :
    Confusion.sum ((recordFor s recognized annotated entries).map Prod.snd) =
      (Confusion.sum (entries.map Prod.snd)).record recognized annotated := by
  induction entries with
  | nil => exact Confusion.record_add .zero .zero
  | cons y entries ih =>
    rw [recordFor]
    split_ifs
    · exact Confusion.record_add _ _
    · exact (Confusion.record_add _ _).trans (by rw [Confusion.zero_add]; rfl)
    · rw [List.map_cons, List.map_cons, Confusion.sum, List.foldr_cons]
      exact (congrArg _ ih).trans (Confusion.add_record _ _)

/-- In a sorted list, a signature has one entry. -/
theorem mem_entries_iff (h : entries.Pairwise fun x y => x.1.before y.1 = true) :
    x ∈ entries ↔ x.1 ∈ entries.map Prod.fst ∧ x.2 = countsAt entries x.1 := by
  have hnodup : (entries.map Prod.fst).Nodup := by
    rw [List.nodup_iff_pairwise_ne, List.pairwise_map]
    refine h.imp fun {x y} hbefore heq => ?_
    rw [heq, Signature.before_irrefl] at hbefore
    cases hbefore
  have hfound : ∀ {y}, y ∈ entries → countsAt entries y.1 = y.2 := by
    intro y hy
    rw [countsAt, find?_key_eq_some hnodup hy]
    rfl
  constructor
  · intro hx
    exact ⟨List.mem_map_of_mem hx, (hfound hx).symm⟩
  · rintro ⟨hkey, hcounts⟩
    obtain ⟨y, hy, heq⟩ := List.mem_map.mp hkey
    have hsame : x = y := Prod.ext heq.symm (by rw [hcounts, ← heq, hfound hy])
    exact hsame ▸ hy

end Entries

/-! ### Evaluations -/

namespace Evaluation

variable {e : Evaluation} {outcomes : List (Signature × Bool × Bool)}

/-- The outcomes of a signature. -/
def outcomesOf (outcomes : List (Signature × Bool × Bool)) (s : Signature) : List (Bool × Bool) :=
  (outcomes.filter fun x => x.1 == s).map Prod.snd

/-- Whether an evaluation counts outcomes, for each signature that has some, and then adds up. -/
structure IsTallyOf (e : Evaluation) (outcomes : List (Signature × Bool × Bool)) : Prop where
  sorted : e.bySignature.Pairwise fun x y => x.1.before y.1 = true
  mem_iff : ∀ s counts, (s, counts) ∈ e.bySignature ↔
    s ∈ outcomes.map Prod.fst ∧ counts = .tallyOf (outcomesOf outcomes s)
  overall_eq : e.overall = .sum (e.bySignature.map Prod.snd)

/-- Records outcomes one after the other. -/
def recordAll (e : Evaluation) (outcomes : List (Signature × Bool × Bool)) : Evaluation :=
  outcomes.foldl (fun e x => e.record x.1 x.2.1 x.2.2) e

theorem recordAll_concat (e : Evaluation) (outcomes : List (Signature × Bool × Bool))
    (s : Signature) (recognized annotated : Bool) :
    e.recordAll (outcomes ++ [(s, recognized, annotated)]) =
      (e.recordAll outcomes).record s recognized annotated :=
  List.foldl_concat ..

theorem outcomesOf_concat (outcomes : List (Signature × Bool × Bool)) (s t : Signature)
    (recognized annotated : Bool) :
    outcomesOf (outcomes ++ [(s, recognized, annotated)]) t =
      if s = t then outcomesOf outcomes s ++ [(recognized, annotated)]
      else outcomesOf outcomes t := by
  unfold outcomesOf
  rw [List.filter_append, List.map_append]
  by_cases h : s = t
  · simp [h]
  · simp [h]

/-- The counts, signatures and sum of an evaluation, as its outcomes come in. -/
structure Follows (e : Evaluation) (outcomes : List (Signature × Bool × Bool)) : Prop where
  sorted : e.bySignature.Pairwise fun x y => x.1.before y.1 = true
  countsAt_eq : ∀ s, countsAt e.bySignature s = .tallyOf (outcomesOf outcomes s)
  mem_keys_iff : ∀ s, s ∈ e.bySignature.map Prod.fst ↔ s ∈ outcomes.map Prod.fst
  overall_eq : e.overall = .sum (e.bySignature.map Prod.snd)

theorem Follows.record (h : e.Follows outcomes) (s : Signature) (recognized annotated : Bool) :
    (e.record s recognized annotated).Follows (outcomes ++ [(s, recognized, annotated)]) := by
  refine ⟨pairwise_recordFor h.sorted, fun t => ?_, fun t => ?_, ?_⟩
  · show countsAt (recordFor s recognized annotated e.bySignature) t = _
    rw [countsAt_recordFor h.sorted, outcomesOf_concat, h.countsAt_eq, h.countsAt_eq]
    split_ifs
    · exact Confusion.record_tallyOf _ _ _
    · rfl
  · show t ∈ (recordFor s recognized annotated e.bySignature).map Prod.fst ↔ _
    rw [mem_keys_recordFor, h.mem_keys_iff, List.map_append, List.mem_append, or_comm,
      List.map_singleton, List.mem_singleton]
  · show e.overall.record recognized annotated = _
    rw [h.overall_eq]
    exact sum_recordFor.symm

theorem follows_recordAll (outcomes : List (Signature × Bool × Bool)) :
    (zero.recordAll outcomes).Follows outcomes := by
  induction outcomes using List.reverseRecOn with
  | nil => exact ⟨.nil, fun _ => rfl, fun _ => Iff.rfl, rfl⟩
  | append_singleton outcomes x ih =>
    obtain ⟨s, recognized, annotated⟩ := x
    rw [recordAll_concat]
    exact ih.record s recognized annotated

/-- Recording outcomes one after the other counts them by signature. -/
theorem isTallyOf_recordAll (outcomes : List (Signature × Bool × Bool)) :
    (zero.recordAll outcomes).IsTallyOf outcomes := by
  have h := follows_recordAll outcomes
  refine ⟨h.sorted, fun s counts => ?_, h.overall_eq⟩
  rw [mem_entries_iff h.sorted, h.mem_keys_iff, h.countsAt_eq]

end Evaluation

end LogicNetwork
