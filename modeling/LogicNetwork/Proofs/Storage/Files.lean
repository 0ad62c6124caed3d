import LogicNetwork.Proofs.Fallible
import LogicNetwork.Storage.Memory

/-!
# Files after a write

What a write adds to a store is one file, and with it the directories that lead there, which were
there before; no directory is lost, since a file that is replaced stays below the same names
(`FileStore.hasDirectory_insert`).  So a path that led somewhere leads there afterwards
(`FileStore.locate_insert`), and what was written at a path is read from it
(`FileStore.read_of_write`).
-/

namespace LogicNetwork.FileStore

variable {s s' : FileStore} {names directory : List String} {text path : String} {l : Location}

theorem hasDirectory_iff : s.hasDirectory directory = true ↔
    (∀ name ∈ directory, name = parentDirectory) ∨
      ∃ entry ∈ s.files, directory <+: entry.1 ∧ entry.1 ≠ directory := by
  simp [hasDirectory]

theorem mem_files_insert {entry : List String × String} :
    entry ∈ (s.insert names text).files ↔
      entry = (names, text) ∨ (entry ∈ s.files ∧ entry.1 ≠ names) := by
  simp [insert]

theorem find?_insert : (s.insert names text).find? names = some text := by
  simp [insert, find?]

/-- The directories after a file is made or replaced: those from before, and those above it. -/
theorem hasDirectory_insert : (s.insert names text).hasDirectory directory = true ↔
    s.hasDirectory directory = true ∨ (directory <+: names ∧ names ≠ directory) := by
  simp only [hasDirectory_iff, mem_files_insert]
  constructor
  · rintro (hparents | ⟨entry, rfl | ⟨hentry, -⟩, habove⟩)
    · exact .inl (.inl hparents)
    · exact .inr habove
    · exact .inl (.inr ⟨entry, hentry, habove⟩)
  · rintro ((hparents | ⟨entry, hentry, habove⟩) | habove)
    · exact .inl hparents
    · by_cases hreplaced : entry.1 = names
      · exact .inr ⟨(names, text), .inl rfl, hreplaced ▸ habove⟩
      · exact .inr ⟨entry, .inr ⟨hentry, hreplaced⟩, habove⟩
    · exact .inr ⟨(names, text), .inl rfl, habove⟩

theorem follow_insert {reached components : List String}
    (h : s.follow reached components = .ok l) :
    (s.insert names text).follow reached components = .ok l := by
  -- Components are only ever refused for a directory that is not there, and none goes away.
  induction components generalizing reached with
  | nil => exact h
  | cons component rest ih =>
    unfold follow at h ⊢
    dsimp only at h ⊢
    split_ifs at h with hstep hlong hlast hdirectory
    · rw [if_pos hstep]
      exact ih h
    · rw [if_neg hstep, if_neg hlong, if_pos hlast]
      exact h
    · have hkept : (s.insert names text).hasDirectory (push reached component).reverse = true :=
        hasDirectory_insert.mpr (.inl hdirectory)
      rw [if_neg hstep, if_neg hlong, if_neg hlast, if_pos hkept]
      exact ih h

/-- A path leads where it led before a file was made or replaced. -/
theorem locate_insert (h : s.locate path = .ok l) :
    (s.insert names text).locate path = .ok l := by
  unfold locate at h ⊢
  split_ifs at h ⊢
  exact follow_insert h

/-- What is written at a path is read from it. -/
theorem read_of_write (h : s.write path text = .ok s') : s'.read path = .ok text := by
  obtain ⟨l, hlocate, h⟩ := Except.bind_eq_ok_iff.mp h
  split_ifs at h with hplace
  cases h
  rw [Bool.or_eq_true, not_or] at hplace
  obtain ⟨hfile, hdirectory⟩ := hplace
  refine Except.bind_eq_ok_iff.mpr ⟨l, locate_insert hlocate, ?_⟩
  -- A file is not above itself, so its names lead to no directory now either.
  have hnot : ¬ (s.insert l.names text).hasDirectory l.names = true := by
    rw [hasDirectory_insert]
    rintro (hbefore | ⟨-, hne⟩)
    · exact hdirectory hbefore
    · exact hne rfl
  rw [if_neg hnot, find?_insert]
  exact if_neg hfile

end LogicNetwork.FileStore
