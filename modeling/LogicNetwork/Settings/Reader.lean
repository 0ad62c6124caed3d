/-
  Reader — settings from documents.

  Sections and fields may be left out and then have their defaults; unknown ones are skipped.
  Settings come in either format, so their readers take its convention. A settings file is read
  and then validated.
-/
import LogicNetwork.Document.TomlReader
import LogicNetwork.Settings.Basic

namespace LogicNetwork

/-- Reads the grounding section. -/
def GroundingSettings.ofValue (c : Convention) (v : Value) : Decoded GroundingSettings := do
  let r ← v.asRecord c ["parallel", "threads", "chunk_size"]
  let d := GroundingSettings.default
  return {
    parallel := ← r.withDefault "parallel" d.parallel Value.asBool
    threads := ← r.withDefault "threads" d.threads (Value.asOptional Value.asNatural)
    chunkSize := ← r.withDefault "chunk_size" d.chunkSize Value.asNatural }

/-- The names of the fields of the sampling section. -/
def samplerFields : List String :=
  ["samples", "chains", "max_flips", "probability_best", "p_sa", "temperature", "late_sa",
    "late_sa_steps", "cooling", "unit_propagation", "random_init", "seed", "threads"]

/-- Reads the sampling section. -/
def SamplerSettings.ofValue (c : Convention) (v : Value) : Decoded SamplerSettings := do
  let r ← v.asRecord c samplerFields
  let d := SamplerSettings.default
  return {
    samples := ← r.withDefault "samples" d.samples Value.asNatural
    chains := ← r.withDefault "chains" d.chains Value.asNatural
    maxFlips := ← r.withDefault "max_flips" d.maxFlips Value.asNatural
    greedyChance := ← r.withDefault "probability_best" d.greedyChance Value.asFloat
    annealChance := ← r.withDefault "p_sa" d.annealChance Value.asFloat
    temperature := ← r.withDefault "temperature" d.temperature Value.asFloat
    lateAnnealing := ← r.withDefault "late_sa" d.lateAnnealing Value.asBool
    lateSteps := ← r.withDefault "late_sa_steps" d.lateSteps (Value.asOptional Value.asNatural)
    cooling := ← r.withDefault "cooling" d.cooling Value.asFloat
    propagation := ← r.withDefault "unit_propagation" d.propagation Value.asBool
    randomStart := ← r.withDefault "random_init" d.randomStart Value.asBool
    seed := ← r.withDefault "seed" d.seed Value.asNatural
    threads := ← r.withDefault "threads" d.threads (Value.asOptional Value.asNatural) }

/-- Reads the optimisation section. -/
def OptimizerSettings.ofValue (c : Convention) (v : Value) : Decoded OptimizerSettings := do
  let r ← v.asRecord c
    ["max_tries", "max_flips", "probability_best", "target_cost", "random_init", "seed"]
  let d := OptimizerSettings.default
  return {
    maxTries := ← r.withDefault "max_tries" d.maxTries Value.asNatural
    maxFlips := ← r.withDefault "max_flips" d.maxFlips Value.asNatural
    greedyChance := ← r.withDefault "probability_best" d.greedyChance Value.asFloat
    targetCost := ← r.withDefault "target_cost" d.targetCost Value.asFloat
    randomStart := ← r.withDefault "random_init" d.randomStart Value.asBool
    seed := ← r.withDefault "seed" d.seed Value.asNatural }

/-- Reads the name of a report format. -/
def ReportFormat.ofValue (c : Convention) (v : Value) : Decoded ReportFormat := do
  let name ← v.asName c
  match ReportFormat.ofName? name with
  | some format => .ok format
  | none => .error (.unknownName name)

/-- Reads the report section. -/
def ReportSettings.ofValue (c : Convention) (v : Value) : Decoded ReportSettings := do
  let r ← v.asRecord c ["precision", "smoothing", "all_atoms", "format"]
  let d := ReportSettings.default
  return {
    precision := ← r.withDefault "precision" d.precision Value.asNatural
    smoothing := ← r.withDefault "smoothing" d.smoothing Value.asBool
    allAtoms := ← r.withDefault "all_atoms" d.allAtoms Value.asBool
    format := ← r.withDefault "format" d.format (ReportFormat.ofValue c) }

namespace Settings

/-- Reads all sections. -/
def ofValue (c : Convention) (v : Value) : Decoded Settings := do
  let r ← v.asRecord c ["grounding", "mcsat", "maxwalksat", "output"]
  return {
    grounding := ← r.withDefault "grounding" .default (GroundingSettings.ofValue c)
    sampler := ← r.withDefault "mcsat" .default (SamplerSettings.ofValue c)
    optimizer := ← r.withDefault "maxwalksat" .default (OptimizerSettings.ofValue c)
    report := ← r.withDefault "output" .default (ReportSettings.ofValue c) }

/-- Checks settings, as an operation on a settings file. -/
def checked (s : Settings) : Except SettingsError Settings := do
  s.validate.mapError SettingsError.invalid
  .ok s

/-- Reads and checks the text of a settings file; `path` is for messages. -/
def ofText (path text : String) : Except SettingsError Settings :=
  match Value.ofToml? text with
  | none => .error (.malformed path .malformed)
  | some v =>
    match ofValue .toml v with
    | .error cause => .error (.malformed path (.decode cause))
    | .ok s => s.checked

end Settings

end LogicNetwork
