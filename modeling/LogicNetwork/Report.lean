/-
  Report — writing what inference found.

  A report has one record for each reported atom, by ascending id: the query atoms, or every
  atom if there is no query or the settings ask for all. A text report has a line for each
  record; a JSON report is a list of records. A report is written piece by piece to a sink,
  which may refuse a piece or the final flush. The digits after a point are counted in 16 bits,
  so a line that asks for more cannot be written.
-/
import LogicNetwork.Document.JsonWriter
import LogicNetwork.Network.Basic
import LogicNetwork.Settings.Basic

namespace LogicNetwork

variable {α : Type}

/-! ### Records -/

/-- The probability reported for an atom that was true in some of the samples. -/
def marginalValue (count samples : Nat) (smoothing : Bool) : Float :=
  let count := (UInt64.ofNat count).toFloat
  let total := (UInt64.ofNat samples).toFloat
  if smoothing then (count + 0.5) / (total + 1)
  else if samples = 0 then 0
  else count / total

@[simp]
theorem marginalValue_smoothed (count samples : Nat) :
    marginalValue count samples true =
      ((UInt64.ofNat count).toFloat + 0.5) / ((UInt64.ofNat samples).toFloat + 1) :=
  rfl

@[simp]
theorem marginalValue_zero (count : Nat) : marginalValue count 0 false = 0 :=
  rfl

@[simp]
theorem marginalValue_of_ne_zero (count : Nat) {samples : Nat} (h : samples ≠ 0) :
    marginalValue count samples false =
      (UInt64.ofNat count).toFloat / (UInt64.ofNat samples).toFloat := by
  simp [marginalValue, h]

/-- The probability reported for an atom that was true in no sample. -/
def neverSampled (samples : Nat) (smoothing : Bool) : Float :=
  marginalValue 0 samples smoothing

/-- The atoms that a report is about. -/
def Network.reportedAtoms (n : Network α) (settings : ReportSettings) : List NetworkAtom :=
  if settings.allAtoms || n.query.isEmpty then n.atoms.toList else n.queryAtoms

/-- The texts and probabilities of the reported atoms. -/
def Network.marginals (n : Network α) (settings : ReportSettings) :
    Except LayoutError (List (String × Float)) :=
  (n.reportedAtoms settings).mapM fun a => do
    .ok (← n.evidence.layout.atomText a.id,
      marginalValue a.trueCount n.samples settings.smoothing)

/-- The texts and states of the reported atoms. -/
def Network.states (n : Network α) (settings : ReportSettings) :
    Except LayoutError (List (String × Bool)) :=
  (n.reportedAtoms settings).mapM fun a => do
    .ok (← n.evidence.layout.atomText a.id, a.state)

/-! ### Pieces -/

/-- The pieces of a report: lines, or a JSON list and a line break. -/
def reportPieces {β : Type} (format : ReportFormat) (line : String × β → String)
    (entry : String × β → Value) (records : List (String × β)) : List String :=
  match format with
  | .text => records.map fun record => line record ++ "\n"
  | .json => [(Value.list (records.map entry)).pretty, "\n"]

/-- The greatest number of digits after a point. -/
def precisionLimit : Nat := 65535

/-- Refuses a report that has a line with more digits than the limit. -/
def checkPrecision {β : Type} (settings : ReportSettings) (records : List β) :
    Except Abort Unit :=
  if settings.format = .text ∧ precisionLimit < settings.precision ∧ records ≠ [] then
    .error (.misuse (.excessivePrecision settings.precision))
  else .ok ()

/-- The pieces of a report of probabilities. -/
def Network.marginalPieces (n : Network α) (settings : ReportSettings) :
    Except Abort (List String) := do
  let records ← (n.marginals settings).mapError Abort.ofLayout
  checkPrecision settings records
  .ok (reportPieces settings.format
    (fun (atom, p) => atom ++ " " ++ fixedPoint settings.precision p)
    (fun (atom, p) => .table [("atom", .text atom), ("probability", .float p)])
    records)

/-- The pieces of a report of states. -/
def Network.statePieces (n : Network α) (settings : ReportSettings) :
    Except Abort (List String) := do
  .ok (reportPieces settings.format
    (fun (atom, state) => atom ++ " " ++ if state then "1" else "0")
    (fun (atom, state) => .table [("atom", .text atom), ("state", .bool state)])
    (← (n.states settings).mapError Abort.ofLayout))

/-! ### Sinks -/

/-- Where a report goes: each operation succeeds or gives the reason why not. -/
structure Sink (m : Type → Type) where
  write : String → m (Except String Unit)
  flush : m (Except String Unit)

namespace Sink

variable {m : Type → Type} [Monad m]

/-- Writes pieces in order and then flushes; the first refusal ends it. -/
def emit (sink : Sink m) : List String → m (Except InferenceError Unit)
  | [] => do return (← sink.flush).mapError InferenceError.sink
  | piece :: rest => do
    match ← sink.write piece with
    | .error reason => return .error (.sink reason)
    | .ok () => sink.emit rest

/-- Writes a report, unless it has no pieces. -/
def writeReport (sink : Sink m) (pieces : Except Abort (List String)) : m (Except Abort Unit) := do
  match pieces with
  | .error cause => return .error cause
  | .ok pieces => return (← sink.emit pieces).mapError Abort.ofInference

end Sink

end LogicNetwork
