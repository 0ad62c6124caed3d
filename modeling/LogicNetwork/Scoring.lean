/-
  Scoring — comparing inference with annotations.

  Every ground atom of the query is scored, once for each time the query names its signature.
  An atom is recognised if its marginal reaches a threshold or, in a network that was never
  sampled, if its state is true; an atom outside the network is recognised if the evidence
  says that it is true. It is annotated if the annotation says that the atom of the same name
  is true, whatever ids the annotation uses.
-/
import LogicNetwork.Network.Basic

namespace LogicNetwork

/-! ### Measures -/

/-- A ratio of counts. -/
def countRatio (a b : Nat) : Float :=
  (UInt64.ofNat a).toFloat / (UInt64.ofNat b).toFloat

/-- The share that a part has in a whole; one if the whole is empty. -/
def shareOf (part whole : Nat) : Float :=
  if whole = 0 then 1 else countRatio part whole

/-- Twice the true positives over all recognised and all annotated atoms; one if there is none. -/
def balanceOf (truePositives total : Nat) : Float :=
  if total = 0 then 1
  else 2 * (UInt64.ofNat truePositives).toFloat / (UInt64.ofNat total).toFloat

/-- The sum of two counts, which has to be a 64-bit number. -/
def countSum (a b : Nat) : Except Misuse Nat :=
  if a + b < wordBound then .ok (a + b) else .error .excessiveSum

/-- The share of recognised atoms that are annotated. -/
def precisionOf (truePositives falsePositives : Nat) : Except Misuse Float :=
  (countSum truePositives falsePositives).map (shareOf truePositives)

/-- The share of annotated atoms that are recognised. -/
def recallOf (truePositives falseNegatives : Nat) : Except Misuse Float :=
  (countSum truePositives falseNegatives).map (shareOf truePositives)

/-- The balanced measure of recognised and annotated atoms. -/
def f1Of (truePositives recognized annotated : Nat) : Except Misuse Float :=
  (countSum recognized annotated).map (balanceOf truePositives)

/-! ### Counts -/

/-- How many atoms were recognised or not, and annotated or not. -/
structure Confusion where
  truePositives : Nat
  falsePositives : Nat
  falseNegatives : Nat
  trueNegatives : Nat
deriving DecidableEq, Repr, Inhabited

namespace Confusion

/-- No atoms. -/
def zero : Confusion :=
  ⟨0, 0, 0, 0⟩

/-- Counts an atom. -/
def record (c : Confusion) (recognized annotated : Bool) : Confusion :=
  match recognized, annotated with
  | true, true => { c with truePositives := c.truePositives + 1 }
  | true, false => { c with falsePositives := c.falsePositives + 1 }
  | false, true => { c with falseNegatives := c.falseNegatives + 1 }
  | false, false => { c with trueNegatives := c.trueNegatives + 1 }

/-- The counts of atoms, given as recognised or not and annotated or not. -/
def ofList (outcomes : List (Bool × Bool)) : Confusion :=
  outcomes.foldl (fun c (recognized, annotated) => c.record recognized annotated) zero

/-- Adds counts. -/
def add (a b : Confusion) : Confusion where
  truePositives := a.truePositives + b.truePositives
  falsePositives := a.falsePositives + b.falsePositives
  falseNegatives := a.falseNegatives + b.falseNegatives
  trueNegatives := a.trueNegatives + b.trueNegatives

/-- The number of recognised atoms. -/
def recognized (c : Confusion) : Nat :=
  c.truePositives + c.falsePositives

/-- The number of annotated atoms. -/
def annotated (c : Confusion) : Nat :=
  c.truePositives + c.falseNegatives

/-- The precision of the recognition. -/
def precisionScore (c : Confusion) : Float :=
  shareOf c.truePositives c.recognized

/-- The recall of the recognition. -/
def recallScore (c : Confusion) : Float :=
  shareOf c.truePositives c.annotated

/-- The balanced measure of the recognition. -/
def f1Score (c : Confusion) : Float :=
  balanceOf c.truePositives (c.recognized + c.annotated)

/-- The counts and measures on one line. -/
def text (c : Confusion) : String :=
  "tp=" ++ toString c.truePositives ++ " fp=" ++ toString c.falsePositives ++
    " fn=" ++ toString c.falseNegatives ++ " precision=" ++ fixedPoint 4 c.precisionScore ++
    " recall=" ++ fixedPoint 4 c.recallScore ++ " f1=" ++ fixedPoint 4 c.f1Score

end Confusion

/-! ### Evaluations -/

/-- The counts of all query atoms, and those of each signature, by symbol and arity. -/
structure Evaluation where
  overall : Confusion
  bySignature : List (Signature × Confusion)
deriving DecidableEq, Repr

/-- Counts an atom for its signature in a list in order of signatures. -/
def recordFor (s : Signature) (recognized annotated : Bool) :
    List (Signature × Confusion) → List (Signature × Confusion)
  | [] => [(s, Confusion.zero.record recognized annotated)]
  | (t, c) :: rest =>
    if s = t then (t, c.record recognized annotated) :: rest
    else if s.before t then (s, Confusion.zero.record recognized annotated) :: (t, c) :: rest
    else (t, c) :: recordFor s recognized annotated rest

namespace Evaluation

/-- Nothing scored. -/
def zero : Evaluation :=
  ⟨.zero, []⟩

/-- Counts an atom of a signature. -/
def record (e : Evaluation) (s : Signature) (recognized annotated : Bool) : Evaluation :=
  ⟨e.overall.record recognized annotated, recordFor s recognized annotated e.bySignature⟩

end Evaluation

variable {α : Type}

/-- Whether an atom of a signature is recognised. -/
def Network.recognizes (n : Network α) (threshold : Float) (s : Signature) (id : AtomId) :
    Except EvidenceError Bool :=
  match n.atom? id with
  | some a =>
    .ok (if 0 < n.samples then threshold ≤ countRatio a.trueCount n.samples else a.state)
  | none => (n.evidence.get s id).map (· == .true)

/-- Whether an annotation says that a ground atom is true. -/
def Evidence.confirms (reference : Evidence) (s : Signature) (constants : List String) :
    Except Failure Bool := do
  let id ← (reference.layout.encode s constants).mapError Failure.layout
  let truth ← (reference.get s id).mapError Failure.evidence
  .ok (truth == .true)

/-- Scores one atom of a signature. -/
def Network.scoreAtom (n : Network α) (reference : Evidence) (threshold : Float)
    (s : Signature) (e : Evaluation) (id : AtomId) : Except Failure Evaluation := do
  let recognized ← (n.recognizes threshold s id).mapError Failure.evidence
  let constants ← (n.evidence.layout.decode s id).mapError Failure.layout
  .ok (e.record s recognized (← reference.confirms s constants))

/-- Scores the atoms of one signature. -/
def Network.scoreSignature (n : Network α) (reference : Evidence) (threshold : Float)
    (e : Evaluation) (s : Signature) : Except Failure Evaluation := do
  let block ← (n.evidence.layout.block s).mapError Failure.layout
  block.ids.foldlM (n.scoreAtom reference threshold s) e

/-- Scores the query of a network against a reference. -/
def Network.evaluate (n : Network α) (reference : Evidence) (threshold : Float) :
    Except Failure Evaluation :=
  if 0 ≤ threshold ∧ threshold ≤ 1 then
    n.query.foldlM (n.scoreSignature reference threshold) .zero
  else
    .error (.inference (.invalidParameter
      ⟨"threshold", FloatStyle.plain.write threshold, .probability⟩))

end LogicNetwork
