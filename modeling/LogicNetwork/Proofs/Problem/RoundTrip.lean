import Mathlib
import LogicNetwork.Proofs.Problem.Encoding
import LogicNetwork.Proofs.Problem.Reading
import LogicNetwork.Proofs.Storage.Files
import LogicNetwork.Storage.Load

/-!
# Problem files there and back

A problem in range is read from its own tree, if the reader goes down as far as the tree is nested
(`Problem.ofValue_toValue`).  The text of a problem file is read back as its tree, so a problem is
also read from its own text, within the reader's limit and as long as the digits of its weights are
read as the weights (`Problem.ofText_fileText`).  What the limit excludes is never read in the first
place: a problem that is read from a text is not nested deeper than the text was.

So a problem can be saved and loaded again, wherever it comes from (`Problem.round_trip`).
-/

namespace LogicNetwork.Problem

theorem ofText_eq_ok_iff {path text : String} {p : Problem} :
    Problem.ofText path text = .ok p ↔
      ∃ v, Value.ofJson? text = some v ∧ Problem.ofValue nestingLimit v = .ok p := by
  unfold Problem.ofText Problem.ofTree
  cases Value.ofJson? text with
  | none => simp
  | some v => simp [Except.mapError_eq_ok_iff]

/-- A problem is read from the text of its file. -/
theorem ofText_fileText {p : Problem} (hrange : p.IsInRange)
    (hweights : ∀ c ∈ p.clauses, c.weight.ReadsBack) (hlevels : p.toValue.IsWithin nestingLimit)
    (path : String) : Problem.ofText path p.fileText = .ok p :=
  ofText_eq_ok_iff.mpr
    ⟨p.toValue, Value.ofJson?_pretty (isPlain_toValue hrange hweights),
      ofValue_toValue hrange hlevels⟩

theorem run_save (p : Problem) (path : String) (s : FileStore) :
    (p.save FileStore.access path).run s = match s.write path p.fileText with
      | .error reason => (.error (.unwritable path reason), s)
      | .ok next => (.ok (), next) := by
  dsimp only [Problem.save, FileStore.access]
  cases hwrite : s.write path p.fileText with
  | error reason =>
    simp [hwrite, Except.mapError]
    rfl
  | ok next =>
    simp [hwrite, Except.mapError]
    rfl

theorem run_load (path : String) (s : FileStore) :
    (Problem.load FileStore.access path).run s = (match s.read path with
      | .error reason => .error (.unreadable path reason)
      | .ok text => Problem.ofText path text, s) := by
  dsimp only [Problem.load, FileStore.access]
  cases hread : s.read path with
  | error reason =>
    simp [hread]
    rfl
  | ok text =>
    simp [hread]
    rfl

/-- A problem whose text is read as itself is loaded from where it was saved. -/
theorem load_of_save {p : Problem} {path : String} {s s' : FileStore}
    (htext : Problem.ofText path p.fileText = .ok p)
    (hsave : (p.save FileStore.access path).run s = (.ok (), s')) :
    (Problem.load FileStore.access path).run s' = (.ok p, s') := by
  rw [run_save] at hsave
  cases hwrite : s.write path p.fileText with
  | error reason =>
    rw [hwrite] at hsave
    cases hsave
  | ok next =>
    rw [hwrite] at hsave
    cases hsave
    rw [run_load, FileStore.read_of_write hwrite]
    exact congrArg (·, s') htext

/-- Problem files round-trip.  Every problem whose numbers are in range, the weights among them
finite, is read from the tree that it is written as, whatever its terms nest.  Every problem that is
read from a text is read again from the text of its own file, and loaded again from where it was
saved, if the digits of its weights are read as the weights. -/
theorem round_trip :
    (∀ p : Problem, p.IsInRange → ∃ depth, p.toValue.depth? = some depth ∧
      ∀ levels, depth ≤ levels → Problem.ofValue levels p.toValue = .ok p) ∧
    (∀ (source text : String) (p : Problem), Problem.ofText source text = .ok p →
      (∀ c ∈ p.clauses, c.weight.ReadsBack) → ∀ path : String,
        Problem.ofText path p.fileText = .ok p ∧
        ∀ s s' : FileStore, (p.save FileStore.access path).run s = (.ok (), s') →
          (Problem.load FileStore.access path).run s' = (.ok p, s')) := by
  constructor
  · intro p hrange
    obtain ⟨n, depth, hdepth, -⟩ := exists_isWithin_toValue hrange
    exact ⟨depth, hdepth, fun levels hle => ofValue_toValue hrange ⟨depth, hdepth, hle⟩⟩
  · intro source text p htext hweights path
    obtain ⟨v, -, hv⟩ := ofText_eq_ok_iff.mp htext
    -- The limit leaves the seven levels that a clause with a literal takes.
    have hlimit : Problem.ofValue (120 + 7) v = .ok p := hv
    obtain ⟨hrange, hlevels⟩ := spec_of_ofValue hlimit
    have hagain := ofText_fileText hrange hweights hlevels path
    exact ⟨hagain, fun s s' => load_of_save hagain⟩

namespace Diary

/-- A problem file as somebody writes it: fields in any order, some left out, one unknown. -/
def tree : Value :=
  .table [
    ("clauses", .list [
      .table [("index", .integer 0), ("note", .null), ("weight", .float 1.5),
        ("literals", .list [
          .table [("positive", .bool true), ("atom", .table [("predicate", .text "rain"),
            ("args", .list [.table [("Function", .table [("symbol", .text "next"),
              ("args", .list [.table [("Variable", .table [("name", .text "d"),
                ("domain", .null)])]])])]])])]]),
        ("constraints", .list [.table [("NotEqual", .list [
          .table [("Variable", .table [("name", .text "d")])],
          .table [("Constant", .text "sunday")]])]])],
      .table [("index", .integer 1), ("weight", .text "Hard"), ("literals", .list [])]]),
    ("domains", .table [("day", textList ["saturday", "sunday"])]),
    ("predicates", .list [.table [("symbol", .text "rain"), ("args", textList ["day"])]]),
    ("functions", .list [.table [("symbol", .text "next"), ("returns", .text "day"),
      ("args", textList ["day"])]])]

/-- What the file says. -/
def problem : Problem where
  domains := .ofList [("day", ["saturday", "sunday"])]
  schema := ⟨[⟨"rain", ["day"]⟩], [⟨"next", "day", ["day"]⟩]⟩
  clauses := [
    ⟨0, .soft 1.5, [⟨true, "rain", [.app "next" [.var ⟨"d", none⟩]]⟩],
      [⟨false, .var ⟨"d", none⟩, .const "sunday"⟩]⟩,
    ⟨1, .hard, [], []⟩]
  facts := []
  values := []
  openWorld := []
  query := []

theorem ofValue_tree : Problem.ofValue nestingLimit tree = .ok problem :=
  rfl

theorem number?_weight :
    Json.number? (FloatStyle.json.write 1.5).toList = some (.float 1.5, []) := by
  have hwritten : FloatStyle.json.write 1.5 = "1.5" := by decide +kernel
  have hvalue : (⟨15, -1⟩ : Decimal).toFloatInSteps = 1.5 := by decide +kernel
  have hread : Json.number? "1.5".toList =
      some (Json.numberValue false ['1'] (some ['5']) none, []) := rfl
  have hdouble : Json.numberValue false ['1'] (some ['5']) none = .float 1.5 := by
    show (if (⟨15, -1⟩ : Decimal).toFloatInSteps.isInf then Value.unreadable
      else .float (⟨15, -1⟩ : Decimal).toFloatInSteps) = .float 1.5
    rw [hvalue]
    exact if_neg (by decide +kernel)
  rw [hwritten, hread, hdouble]

theorem readsBack_weight {c : Clause Float} (hc : c ∈ problem.clauses) : c.weight.ReadsBack := by
  intro x hx
  simp only [problem, List.mem_cons, List.not_mem_nil, or_false] at hc
  rcases hc with rfl | rfl
  · obtain rfl := Weight.soft.inj hx
    exact number?_weight
  · cases hx

theorem isPlain_tree : tree.IsPlain := by
  have hfinite : (1.5 : Float).isFinite = true := by decide +kernel
  have hzero : (Value.integer 0).IsPlain := .integer (n := 0) (by decide)
  have hone : (Value.integer 1).IsPlain := .integer (n := 1) (by decide)
  simp [tree, textList, hzero, hone, Value.IsPlain.float hfinite number?_weight]

theorem isInRange_problem : problem.IsInRange := by
  have hlimit : Problem.ofValue (120 + 7) tree = .ok problem := ofValue_tree
  exact (spec_of_ofValue hlimit).1

end Diary

theorem round_trip_diary :
    let store : FileStore := ⟨[(["p"], Diary.tree.pretty)]⟩
    Diary.problem.IsInRange ∧
    Problem.ofText "p" Diary.tree.pretty = .ok Diary.problem ∧
    (∀ c ∈ Diary.problem.clauses, c.weight.ReadsBack) ∧
    (∃ depth, Diary.problem.toValue.depth? = some depth ∧
      ∀ levels, depth ≤ levels →
        Problem.ofValue levels Diary.problem.toValue = .ok Diary.problem) ∧
    ∃ next : FileStore, (Diary.problem.save FileStore.access "p").run store = (.ok (), next) ∧
      (Problem.load FileStore.access "p").run next = (.ok Diary.problem, next) := by
  intro store
  have htext : Problem.ofText "p" Diary.tree.pretty = .ok Diary.problem :=
    ofText_eq_ok_iff.mpr ⟨_, Value.ofJson?_pretty Diary.isPlain_tree, Diary.ofValue_tree⟩
  have hlocate : store.locate "p" = .ok ⟨["p"], false⟩ := by cbv
  have hwrite : store.write "p" Diary.problem.fileText =
      .ok (store.insert ["p"] Diary.problem.fileText) := by
    refine Except.bind_eq_ok_iff.mpr ⟨_, hlocate, if_neg ?_⟩
    decide
  have hsave : (Diary.problem.save FileStore.access "p").run store =
      (.ok (), store.insert ["p"] Diary.problem.fileText) := by
    rw [run_save, hwrite]
  have hagain := round_trip.2 "p" Diary.tree.pretty Diary.problem htext
    (fun c hc => Diary.readsBack_weight hc) "p"
  exact ⟨Diary.isInRange_problem, htext, fun c hc => Diary.readsBack_weight hc,
    round_trip.1 Diary.problem Diary.isInRange_problem, _, hsave, hagain.2 _ _ hsave⟩

end LogicNetwork.Problem
