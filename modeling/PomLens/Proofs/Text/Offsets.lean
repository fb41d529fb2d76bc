/-
This file compares the places at which a text is divided.
-/

import PomLens.Text.Span

namespace PomLens.Text

/-- Of two divisions of a text, what is in front of the later one is what is in front of the
earlier one, and what lies between them. -/
theorem exists_between {first rest second rest' : List Char} (same : first ++ rest = second ++ rest')
    (earlier : size first ≤ size second) :
    ∃ between, second = first ++ between ∧ rest = between ++ rest' := by
  rcases List.append_eq_append_iff.mp same with ⟨between, whole, behind⟩ | ⟨between, whole, behind⟩
  · exact ⟨between, whole, behind⟩
  · obtain rfl : between = [] := by
      rw [whole, size_append] at earlier
      exact size_eq_zero_iff.mp (by omega)
    exact ⟨[], by simpa using whole.symm, by simpa using behind.symm⟩

/-- Where two divisions of a text are at the same place, they are the same. -/
theorem append_inj_of_size {first rest second rest' : List Char}
    (same : first ++ rest = second ++ rest') (place : size first = size second) :
    first = second ∧ rest = rest' := by
  obtain ⟨between, rfl, rfl⟩ := exists_between same (Nat.le_of_eq place)
  rw [size_append] at place
  obtain rfl : between = [] := size_eq_zero_iff.mp (by omega)
  exact ⟨(List.append_nil _).symm, rfl⟩

/-- What a span covers has its length. -/
theorem size_of_slice? {text content : List Char} {span : Span}
    (cut : span.slice? text = some content) : size content = span.length := by
  obtain ⟨⟨before, rest⟩, -, cut⟩ := Option.bind_eq_some_iff.mp cut
  obtain ⟨⟨covered, after⟩, inside, same⟩ := Option.bind_eq_some_iff.mp cut
  cases same
  exact (cut?_eq_some_iff.mp inside).2

end PomLens.Text
