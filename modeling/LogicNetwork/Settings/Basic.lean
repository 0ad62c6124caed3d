/-
  Basic — all settings of a session.

  Settings come in four sections, for grounding, sampling, optimisation and reports, each with
  defaults. `Settings.description` is the one-line form with every field labelled.
-/
import LogicNetwork.Settings.Solvers

namespace LogicNetwork

/-! ### Sections -/

/-- How the work of grounding is cut up; results do not depend on it. -/
structure GroundingSettings where
  parallel : Bool
  threads : Option Nat
  /-- Substitutions in one piece of work. -/
  chunkSize : Nat
deriving BEq, Repr

namespace GroundingSettings

/-- Grounding that is not told otherwise. -/
def default : GroundingSettings :=
  ⟨true, none, 4096⟩

instance : Inhabited GroundingSettings := ⟨default⟩

end GroundingSettings

/-- The form of a report. -/
inductive ReportFormat
  | text
  | json
deriving DecidableEq, Repr, Inhabited

namespace ReportFormat

/-- The name of a format. -/
def name : ReportFormat → String
  | text => "text"
  | json => "json"

/-- The format of a name. -/
def ofName? : String → Option ReportFormat
  | "text" => some text
  | "json" => some json
  | _ => none

end ReportFormat

/-- What a report contains and how it looks. -/
structure ReportSettings where
  /-- Places of probabilities in text reports. -/
  precision : Nat
  /-- Whether half a sample of either kind is added, so that nothing is certain. -/
  smoothing : Bool
  /-- Whether atoms outside the query are reported too. -/
  allAtoms : Bool
  format : ReportFormat
deriving BEq, Repr

namespace ReportSettings

/-- Reports that are not told otherwise. -/
def default : ReportSettings :=
  ⟨6, false, false, .text⟩

instance : Inhabited ReportSettings := ⟨default⟩

end ReportSettings

/-! ### Settings -/

/-- All settings. -/
structure Settings where
  grounding : GroundingSettings
  sampler : SamplerSettings
  optimizer : OptimizerSettings
  report : ReportSettings
deriving BEq, Repr

namespace Settings

/-- All defaults. -/
def default : Settings :=
  ⟨.default, .default, .default, .default⟩

instance : Inhabited Settings := ⟨default⟩

/-- Checks the ranges of all settings. -/
def validate (s : Settings) : Except InvalidSetting Unit := do
  if s.grounding.chunkSize = 0 then .error .chunkSize
  if s.grounding.threads = some 0 then .error .groundingThreads
  s.sampler.validate.mapError .sampler
  s.optimizer.validate.mapError .optimizer

/-- The settings with one seed for sampling and optimisation. -/
def withSeed (s : Settings) (seed : Nat) : Settings :=
  { s with sampler := { s.sampler with seed }, optimizer := { s.optimizer with seed } }

/-- The settings with one number of workers for grounding and sampling. -/
def withThreads (s : Settings) (threads : Nat) : Settings :=
  { s with
    grounding := { s.grounding with threads := some threads }
    sampler := { s.sampler with threads := some threads } }

end Settings

/-! ### Descriptions -/

/-- A name and labelled fields in braces. -/
def labelledRecord (name : String) (fields : List (String × String)) : String :=
  name ++ " \x7b " ++ ", ".intercalate (fields.map fun (label, value) => label ++ ": " ++ value) ++
    " \x7d"

/-- An optional number. -/
def optionText : Option Nat → String
  | none => "None"
  | some n => "Some(" ++ toString n ++ ")"

/-- A truth value. -/
def boolText (b : Bool) : String :=
  if b then "true" else "false"

/-- A labelled double. -/
def floatText (x : Float) : String :=
  FloatStyle.labelled.write x

/-- The fields of the grounding section. -/
def GroundingSettings.description (s : GroundingSettings) : String :=
  labelledRecord "GroundingConfig" [
    ("parallel", boolText s.parallel),
    ("threads", optionText s.threads),
    ("chunk_size", toString s.chunkSize)]

/-- The fields of the sampling section. -/
def SamplerSettings.description (s : SamplerSettings) : String :=
  labelledRecord "McSatConfig" [
    ("samples", toString s.samples),
    ("chains", toString s.chains),
    ("max_flips", toString s.maxFlips),
    ("probability_best", floatText s.greedyChance),
    ("p_sa", floatText s.annealChance),
    ("temperature", floatText s.temperature),
    ("late_sa", boolText s.lateAnnealing),
    ("late_sa_steps", optionText s.lateSteps),
    ("cooling", floatText s.cooling),
    ("unit_propagation", boolText s.propagation),
    ("random_init", boolText s.randomStart),
    ("seed", toString s.seed),
    ("threads", optionText s.threads)]

/-- The fields of the optimisation section. -/
def OptimizerSettings.description (s : OptimizerSettings) : String :=
  labelledRecord "MaxWalkSatConfig" [
    ("max_tries", toString s.maxTries),
    ("max_flips", toString s.maxFlips),
    ("probability_best", floatText s.greedyChance),
    ("target_cost", floatText s.targetCost),
    ("random_init", boolText s.randomStart),
    ("seed", toString s.seed)]

/-- The fields of the report section. -/
def ReportSettings.description (s : ReportSettings) : String :=
  let format := match s.format with
    | .text => "Text"
    | .json => "Json"
  labelledRecord "OutputConfig" [
    ("precision", toString s.precision),
    ("smoothing", boolText s.smoothing),
    ("all_atoms", boolText s.allAtoms),
    ("format", format)]

/-- All sections. -/
def Settings.description (s : Settings) : String :=
  labelledRecord "MlnConfig" [
    ("grounding", s.grounding.description),
    ("mcsat", s.sampler.description),
    ("maxwalksat", s.optimizer.description),
    ("output", s.report.description)]

end LogicNetwork
