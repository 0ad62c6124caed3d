/-
  Domain — finite, named sets of constants.

  A domain numbers its constants from zero in the order of their first occurrence. The hash
  index is a function of the constants (`Domain.numbering`), so two domains of the same name
  and constants are equal, and `indexOf?` and `symbol?` are inverse to each other.
  `Domains` is the collection of a theory's domains, in the order of their names.
-/
import Std.Data.HashMap
import Std.Data.HashSet
import LogicNetwork.Failure

namespace LogicNetwork

/-! ### Distinct constants -/

/-- The first occurrences in a list, those already seen left out. -/
def distinctFrom (seen : Std.HashSet String) : List String → List String
  | [] => []
  | c :: rest =>
    if seen.contains c then distinctFrom seen rest else c :: distinctFrom (seen.insert c) rest

/-- The list without later occurrences. -/
def distinct (constants : List String) : List String :=
  distinctFrom ∅ constants

theorem mem_distinctFrom {c : String} {seen : Std.HashSet String} {l : List String} :
    c ∈ distinctFrom seen l ↔ c ∈ l ∧ c ∉ seen := by
  induction l generalizing seen with
  | nil => simp [distinctFrom]
  | cons d rest ih =>
    simp only [distinctFrom]
    split
    · rename_i h
      have hd : d ∈ seen := h
      by_cases hc : c = d
      · subst hc; simp [ih, hd]
      · simp [ih, hc]
    · rename_i h
      have hd : d ∉ seen := h
      by_cases hc : c = d
      · subst hc; simp [hd]
      · have hdc : ¬ d = c := fun e => hc e.symm
        simp [ih, hc, hdc]

theorem nodup_distinctFrom (seen : Std.HashSet String) (l : List String) :
    (distinctFrom seen l).Nodup := by
  induction l generalizing seen with
  | nil => simp [distinctFrom]
  | cons d rest ih =>
    simp only [distinctFrom]
    split
    · exact ih _
    · exact List.nodup_cons.2 ⟨by simp [mem_distinctFrom], ih _⟩

/-- A list without repetitions outside the seen ones stays as it is. -/
theorem distinctFrom_eq_self {seen : Std.HashSet String} {l : List String} (h : l.Nodup)
    (unseen : ∀ c ∈ l, c ∉ seen) : distinctFrom seen l = l := by
  induction l generalizing seen with
  | nil => rfl
  | cons d rest ih =>
    have hd : ¬ seen.contains d = true := unseen d (by simp)
    obtain ⟨hmem, hrest⟩ := List.nodup_cons.1 h
    simp only [distinctFrom, if_neg hd]
    rw [ih hrest fun c hc => ?_]
    have hne : ¬ d = c := fun e => hmem (e ▸ hc)
    simp [hne, unseen c (by simp [hc])]

theorem distinct_eq_self {l : List String} (h : l.Nodup) : distinct l = l :=
  distinctFrom_eq_self h (by simp)

/-! ### Domains -/

/-- The index of a list of constants: each constant with its place. -/
def Domain.numbering (constants : Array String) : Std.HashMap String Nat :=
  Std.HashMap.ofList constants.toList.zipIdx

/-- A named set of constants, numbered from zero. -/
structure Domain where
  name : String
  constants : Array String
  index : Std.HashMap String Nat
  nodup : constants.toList.Nodup
  index_eq : index = Domain.numbering constants

namespace Domain

/-- The domain of the first occurrences of the constants. -/
def ofList (name : String) (constants : List String) : Domain where
  name := name
  constants := (distinct constants).toArray
  index := numbering (distinct constants).toArray
  nodup := nodup_distinctFrom _ _
  index_eq := rfl

@[ext]
theorem ext {a b : Domain} (hname : a.name = b.name) (hconstants : a.constants = b.constants) :
    a = b := by
  obtain ⟨_, _, _, _, rfl⟩ := a
  obtain ⟨_, _, _, _, rfl⟩ := b
  subst hname hconstants
  rfl

instance : DecidableEq Domain := fun a b =>
  if h : a.name = b.name ∧ a.constants = b.constants then isTrue (ext h.1 h.2)
  else isFalse fun e => h (e ▸ ⟨rfl, rfl⟩)

/-- The number of constants. -/
def size (d : Domain) : Nat :=
  d.constants.size

/-- The number of a constant. -/
def indexOf? (d : Domain) (constant : String) : Option Nat :=
  d.index[constant]?

/-- The constant of a number. -/
def symbol? (d : Domain) (i : Nat) : Option String :=
  d.constants[i]?

/-- Whether the constant belongs to the domain. -/
def contains (d : Domain) (constant : String) : Bool :=
  d.index.contains constant

/-- The constant of a number that is in range, and an empty text otherwise. -/
def symbol (d : Domain) (i : Nat) : String :=
  (d.symbol? i).getD ""

/-! #### Numbers and constants -/

theorem symbol?_lt {d : Domain} {i : Nat} {c : String} (h : d.symbol? i = some c) : i < d.size :=
  (Array.getElem?_eq_some_iff.1 h).1

/-- Numbers and constants determine each other. -/
theorem indexOf?_eq_some_iff {d : Domain} {c : String} {i : Nat} :
    d.indexOf? c = some i ↔ d.symbol? i = some c := by
  obtain ⟨name, constants, index, nodup, rfl⟩ := d
  have pairwise : constants.toList.zipIdx.Pairwise fun a b => (a.1 == b.1) = false := by
    have := List.pairwise_map.1
      (by simpa using nodup : (constants.toList.zipIdx.map Prod.fst).Nodup)
    exact this.imp fun h => by simpa using h
  simp only [indexOf?, symbol?, numbering]
  constructor
  · intro h
    by_cases hc : (constants.toList.zipIdx.map Prod.fst).contains c
    · simp only [List.contains_eq_mem, decide_eq_true_eq, List.mem_map] at hc
      obtain ⟨⟨c', j⟩, hmem, rfl⟩ := hc
      have hj : (Std.HashMap.ofList constants.toList.zipIdx)[c']? = some j :=
        Std.HashMap.getElem?_ofList_of_mem BEq.rfl pairwise hmem
      obtain rfl : j = i := Option.some.inj (hj.symm.trans h)
      simpa [List.mem_zipIdx_iff_getElem?] using hmem
    · have absent : (Std.HashMap.ofList constants.toList.zipIdx)[c]? = none :=
        Std.HashMap.getElem?_ofList_of_contains_eq_false (by simpa using hc)
      rw [absent] at h
      cases h
  · intro h
    exact Std.HashMap.getElem?_ofList_of_mem BEq.rfl pairwise
      (by simpa [List.mem_zipIdx_iff_getElem?] using h)

end Domain

/-! ### The domains of a theory -/

/-- Puts a domain in its place by name, instead of one of the same name. -/
def insertByName (d : Domain) : List Domain → List Domain
  | [] => [d]
  | e :: rest =>
    if d.name < e.name then d :: e :: rest
    else if d.name = e.name then d :: rest
    else e :: insertByName d rest

theorem mem_insertByName {d e : Domain} {l : List Domain} (h : e ∈ insertByName d l) :
    e = d ∨ e ∈ l := by
  induction l with
  | nil => simpa [insertByName] using h
  | cons x rest ih =>
    simp only [insertByName] at h
    split at h
    · simpa using h
    · split at h
      · rcases List.mem_cons.1 h with h | h
        · exact .inl h
        · exact .inr (List.mem_cons_of_mem _ h)
      · rcases List.mem_cons.1 h with h | h
        · exact .inr (by simp [h])
        · exact (ih h).imp_right fun h => List.mem_cons_of_mem _ h

theorem pairwise_insertByName {d : Domain} {l : List Domain}
    (h : l.Pairwise fun a b => a.name < b.name) :
    (insertByName d l).Pairwise fun a b => a.name < b.name := by
  induction l with
  | nil => simp [insertByName]
  | cons x rest ih =>
    obtain ⟨hx, hrest⟩ := List.pairwise_cons.1 h
    simp only [insertByName]
    split
    · rename_i hlt
      refine List.pairwise_cons.2 ⟨fun e he => ?_, h⟩
      rcases List.mem_cons.1 he with rfl | he
      · exact hlt
      · exact String.lt_trans hlt (hx e he)
    · split
      · rename_i _ heq
        exact List.pairwise_cons.2 ⟨fun e he => heq ▸ hx e he, hrest⟩
      · rename_i hlt hne
        refine List.pairwise_cons.2 ⟨fun e he => ?_, ih hrest⟩
        rcases mem_insertByName he with rfl | he
        · rcases Std.lt_trichotomy e.name x.name with hlt' | heq | hgt
          · exact absurd hlt' hlt
          · exact absurd heq hne
          · exact hgt
        · exact hx e he

/-- The domains of a theory, in strictly ascending order of their names. -/
structure Domains where
  all : List Domain
  sorted : all.Pairwise fun a b => a.name < b.name
deriving DecidableEq

namespace Domains

/-- No domains. -/
def empty : Domains :=
  ⟨[], .nil⟩

instance : Inhabited Domains := ⟨empty⟩

/-- Adds a domain, or replaces the one of the same name. -/
def insert (ds : Domains) (d : Domain) : Domains :=
  ⟨insertByName d ds.all, pairwise_insertByName ds.sorted⟩

/-- The domains of a list of names and constants; of one name the last counts. -/
def ofList (entries : List (String × List String)) : Domains :=
  entries.foldl (fun ds (name, constants) => ds.insert (.ofList name constants)) empty

/-- The domain of a name. -/
def get? (ds : Domains) (name : String) : Option Domain :=
  ds.all.find? fun d => d.name == name

/-- The domain of a name, which has to exist. -/
def require (ds : Domains) (name : String) : Except DomainError Domain :=
  match ds.get? name with
  | some d => .ok d
  | none => .error (.unknown name)

/-- The number of a constant in a domain, both of which have to exist. -/
def indexOf (ds : Domains) (name constant : String) : Except DomainError Nat := do
  let d ← ds.require name
  match d.indexOf? constant with
  | some i => .ok i
  | none => .error (.unknownConstant name constant)

/-- The number of domains. -/
def size (ds : Domains) : Nat :=
  ds.all.length

/-- The domains as a table from names to constants. -/
def toValue (ds : Domains) : Value :=
  .table (ds.all.map fun d => (d.name, .list (d.constants.toList.map .text)))

end Domains

end LogicNetwork
