/-
This file says what is found in a list of entries when some of them are taken away.
-/

namespace PomLens

variable {κ α : Type} [BEq κ]

/-- A key whose entries are taken away is not found any more, and every other key is found as
before. -/
theorem lookup_filter_ne [LawfulBEq κ] [DecidableEq κ] (entries : List (κ × α)) (key other : κ) :
    (entries.filter fun (found, _) => found ≠ key).lookup other =
      if other = key then none else entries.lookup other := by
  induction entries with
  | nil => simp
  | cons first rest inductionHypothesis =>
    obtain ⟨found, value⟩ := first
    by_cases dropped : found = key
    · subst dropped
      rw [List.filter_cons_of_neg (by simp), inductionHypothesis, List.lookup_cons]
      by_cases same : other = found
      · simp [same]
      · have different : (other == found) = false := by simpa using same
        simp [same, different]
    · rw [List.filter_cons_of_pos (by simpa using dropped), List.lookup_cons, List.lookup_cons,
        inductionHypothesis]
      by_cases same : other = found
      · subst same
        simp [dropped]
      · have different : (other == found) = false := by simpa using same
        simp [different]

/-- What is found among the first entries is found among all of them. -/
theorem lookup_of_take {entries : List (κ × α)} {count : Nat} {key : κ} {value : α}
    (found : (entries.take count).lookup key = some value) : entries.lookup key = some value := by
  rw [← List.take_append_drop count entries, List.lookup_append, found, Option.some_or]

end PomLens
