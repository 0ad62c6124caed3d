import LogicNetwork.Document.Value

/-!
# Nesting of trees

A reader that goes down through a number of levels can read a tree if no more lists and tables are
nested in it than that, and if every scalar in it denotes something (`Value.IsWithin`).  A list or a
table takes one level and its contents the others (`Value.isWithin_list`, `Value.isWithin_table`).
A tree of which every scalar denotes something is within some number of levels
(`Value.exists_isWithin_list`, `Value.exists_isWithin_table`).
-/

namespace LogicNetwork.Value

variable {v : Value} {items : List Value} {entries : List (String × Value)} {m n : Nat}

/-- Whether every scalar of a tree denotes something, and no more lists and tables are nested in it
than a number. -/
def IsWithin (v : Value) (n : Nat) : Prop :=
  ∃ depth, v.depth? = some depth ∧ depth ≤ n

theorem IsWithin.mono (h : v.IsWithin m) (hmn : m ≤ n) : v.IsWithin n := by
  obtain ⟨depth, hdepth, hle⟩ := h
  exact ⟨depth, hdepth, Nat.le_trans hle hmn⟩

theorem IsWithin.lt_of_not (h : v.IsWithin n) (hnot : ¬ v.IsWithin m) : m < n := by
  apply Nat.lt_of_not_le
  intro hle
  exact hnot (h.mono hle)

/-! ### Scalars -/

@[simp]
theorem isWithin_text (s : String) (n : Nat) : (text s).IsWithin n :=
  ⟨0, rfl, n.zero_le⟩

@[simp]
theorem isWithin_bool (b : Bool) (n : Nat) : (bool b).IsWithin n :=
  ⟨0, rfl, n.zero_le⟩

@[simp]
theorem isWithin_integer (i : Int) (n : Nat) : (integer i).IsWithin n :=
  ⟨0, rfl, n.zero_le⟩

@[simp]
theorem isWithin_float (x : Float) (n : Nat) : (float x).IsWithin n :=
  ⟨0, rfl, n.zero_le⟩

/-! ### Lists and tables -/

theorem depthOfItems?_le_iff :
    (∃ depth, depthOfItems? items = some depth ∧ depth ≤ n) ↔ ∀ v ∈ items, v.IsWithin n := by
  induction items with
  | nil => simp [depthOfItems?]
  | cons v items ih =>
    rw [List.forall_mem_cons, ← ih, depthOfItems?]
    cases hv : v.depth? with
    | none => simp [IsWithin, hv]
    | some depth =>
      cases depthOfItems? items with
      | none => simp
      | some others => simp only [IsWithin, hv, Option.some.injEq, exists_eq_left', Nat.max_le]

theorem depthOfEntries?_le_iff :
    (∃ depth, depthOfEntries? entries = some depth ∧ depth ≤ n) ↔
      ∀ e ∈ entries, e.2.IsWithin n := by
  induction entries with
  | nil => simp [depthOfEntries?]
  | cons e entries ih =>
    obtain ⟨name, v⟩ := e
    rw [List.forall_mem_cons, ← ih, depthOfEntries?]
    cases hv : v.depth? with
    | none => simp [IsWithin, hv]
    | some depth =>
      cases depthOfEntries? entries with
      | none => simp
      | some others => simp only [IsWithin, hv, Option.some.injEq, exists_eq_left', Nat.max_le]

@[simp]
theorem isWithin_list : (list items).IsWithin (n + 1) ↔ ∀ v ∈ items, v.IsWithin n := by
  rw [← depthOfItems?_le_iff, IsWithin, depth?]
  cases depthOfItems? items with
  | none => simp
  | some depth => simp

@[simp]
theorem isWithin_table : (table entries).IsWithin (n + 1) ↔ ∀ e ∈ entries, e.2.IsWithin n := by
  rw [← depthOfEntries?_le_iff, IsWithin, depth?]
  cases depthOfEntries? entries with
  | none => simp
  | some depth => simp

@[simp]
theorem not_isWithin_list_zero : ¬ (list items).IsWithin 0 := by
  rw [IsWithin, depth?]
  cases depthOfItems? items with
  | none => simp
  | some depth => simp

@[simp]
theorem not_isWithin_table_zero : ¬ (table entries).IsWithin 0 := by
  rw [IsWithin, depth?]
  cases depthOfEntries? entries with
  | none => simp
  | some depth => simp

/-! ### Any number of levels -/

/-- What is within some number of levels each is within one number of levels together. -/
theorem exists_forall_isWithin {β : Type} {f : β → Value} {xs : List β}
    (h : ∀ x ∈ xs, ∃ n, (f x).IsWithin n) : ∃ n, ∀ x ∈ xs, (f x).IsWithin n := by
  induction xs with
  | nil => exact ⟨0, fun x hx => nomatch hx⟩
  | cons x xs ih =>
    rw [List.forall_mem_cons] at h
    obtain ⟨⟨m, hm⟩, hxs⟩ := h
    obtain ⟨n, hn⟩ := ih hxs
    refine ⟨max m n, List.forall_mem_cons.mpr ⟨hm.mono (Nat.le_max_left m n), fun y hy => ?_⟩⟩
    exact (hn y hy).mono (Nat.le_max_right m n)

theorem exists_isWithin_list (h : ∀ v ∈ items, ∃ n, v.IsWithin n) :
    ∃ n, (list items).IsWithin n := by
  obtain ⟨n, hn⟩ := exists_forall_isWithin (f := id) h
  exact ⟨n + 1, isWithin_list.mpr hn⟩

theorem exists_isWithin_table (h : ∀ e ∈ entries, ∃ n, e.2.IsWithin n) :
    ∃ n, (table entries).IsWithin n := by
  obtain ⟨n, hn⟩ := exists_forall_isWithin (f := Prod.snd) h
  exact ⟨n + 1, isWithin_table.mpr hn⟩

end LogicNetwork.Value
