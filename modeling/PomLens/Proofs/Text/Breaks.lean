/-
This file says where the lines of a text end and what stands at the edges of a line.

A character of a line breaks it exactly if it is the last one and another line follows
(`breaksLine_iff`). So the carriage returns and line feeds at the end of a line are one ending at
most (`exists_returns`). Every boundary of a text divides one of its lines (`exists_divides`).
-/

import PomLens.Proofs.Text.Cutting
import PomLens.Proofs.Text.Offsets
import PomLens.Text.Lines

namespace PomLens.Text

/-! ### Counting -/

theorem charUnits_pos (char : Char) : 0 < charUnits char := by
  rw [charUnits]
  split <;> decide

@[simp] theorem units_append (first second : List Char) :
    units (first ++ second) = units first + units second := by
  induction first with
  | nil => simp [units]
  | cons char rest inductionHypothesis => simp [units, inductionHypothesis, Nat.add_assoc]

/-- The bytes of a beginning of a text are taken as that beginning. -/
theorem takeBytes_append (before after : List Char) :
    takeBytes (size before) (before ++ after) = before := by
  induction before with
  | nil =>
    cases after with
    | nil => rfl
    | cons char rest =>
      have := char.utf8Size_pos
      rw [List.nil_append, takeBytes, if_neg (by simp; omega)]
  | cons char rest inductionHypothesis =>
    rw [List.cons_append, takeBytes, if_pos (by simp), size_cons, Nat.add_sub_cancel_left,
      inductionHypothesis]

/-- An offset inside a character is moved back to where that starts. -/
theorem exists_takeBytes {text : List Char} {offset : Nat} (inText : offset ≤ size text) :
    ∃ before after, text = before ++ after ∧ takeBytes offset text = before ∧
      (size before = offset ∨ ∃ char rest, after = char :: rest ∧ size before < offset ∧
        offset < size before + char.utf8Size) := by
  induction text generalizing offset with
  | nil => exact ⟨[], [], rfl, rfl, Or.inl (Nat.le_zero.mp inText).symm⟩
  | cons char rest inductionHypothesis =>
    rw [size_cons] at inText
    by_cases fits : char.utf8Size ≤ offset
    · obtain ⟨before, after, rfl, taken, near⟩ :=
        @inductionHypothesis (offset - char.utf8Size) (by omega)
      refine ⟨char :: before, after, rfl, by rw [takeBytes, if_pos fits, taken], ?_⟩
      rw [size_cons]
      rcases near with exact_ | ⟨next, others, same, later, inside⟩
      · exact Or.inl (by omega)
      · exact Or.inr ⟨next, others, same, by omega, by omega⟩
    · refine ⟨[], char :: rest, rfl, by rw [takeBytes, if_neg fits], ?_⟩
      rcases Nat.eq_zero_or_pos offset with rfl | later
      · exact Or.inl rfl
      · exact Or.inr ⟨char, rest, rfl, later, by rw [size_nil]; omega⟩

theorem takeBytes_append_of_lt {offset : Nat} {first : List Char} (rest : List Char)
    (inside : offset < size first) : takeBytes offset (first ++ rest) = takeBytes offset first := by
  induction first generalizing offset with
  | nil => exact absurd inside (Nat.not_lt_zero _)
  | cons char others inductionHypothesis =>
    rw [size_cons] at inside
    rw [List.cons_append, takeBytes, takeBytes]
    split
    · rw [inductionHypothesis (by omega)]
    · rfl

theorem takeBytes_append_of_le {offset : Nat} {first : List Char} (rest : List Char)
    (behind : size first ≤ offset) :
    takeBytes offset (first ++ rest) = first ++ takeBytes (offset - size first) rest := by
  induction first generalizing offset with
  | nil => simp
  | cons char others inductionHypothesis =>
    rw [size_cons] at behind ⊢
    rw [List.cons_append, takeBytes, if_pos (by omega), inductionHypothesis (by omega),
      List.cons_append, Nat.sub_sub]

theorem takeBytes_size_takeBytes (offset : Nat) (text : List Char) :
    takeBytes (size (takeBytes offset text)) text = takeBytes offset text := by
  induction text generalizing offset with
  | nil => rfl
  | cons char rest inductionHypothesis =>
    by_cases fits : char.utf8Size ≤ offset
    · have taken : takeBytes offset (char :: rest) =
          char :: takeBytes (offset - char.utf8Size) rest := by rw [takeBytes, if_pos fits]
      rw [taken, size_cons, takeBytes, if_pos (by omega), Nat.add_sub_cancel_left,
        inductionHypothesis]
    · have taken : takeBytes offset (char :: rest) = [] := by rw [takeBytes, if_neg fits]
      have := char.utf8Size_pos
      rw [taken, size_nil, takeBytes, if_neg (by omega)]

theorem size_takeBytes_le (offset : Nat) (text : List Char) :
    size (takeBytes offset text) ≤ offset := by
  induction text generalizing offset with
  | nil => exact Nat.zero_le _
  | cons char rest inductionHypothesis =>
    rw [takeBytes]
    split
    · have := inductionHypothesis (offset - char.utf8Size)
      rw [size_cons]
      omega
    · exact Nat.zero_le _

/-- The units of a beginning of a text are taken as that beginning. -/
theorem takeUnits_append (before after : List Char) :
    takeUnits (units before) (before ++ after) = before := by
  induction before with
  | nil =>
    cases after with
    | nil => rfl
    | cons char rest =>
      have := charUnits_pos char
      rw [List.nil_append, takeUnits, if_neg (by simp [units]; omega)]
  | cons char rest inductionHypothesis =>
    rw [List.cons_append, takeUnits, if_pos (by simp [units]), units, Nat.add_sub_cancel_left,
      inductionHypothesis]

/-- No more is taken than there is. -/
theorem takeUnits_of_le {text : List Char} {limit : Nat} (enough : units text ≤ limit) :
    takeUnits limit text = text := by
  induction text generalizing limit with
  | nil => rfl
  | cons char rest inductionHypothesis =>
    rw [units] at enough
    rw [takeUnits, if_pos (by omega), inductionHypothesis (by omega)]

/-! ### Where lines end -/

theorem breaksLine_feed (rest : List Char) : breaksLine '\n' rest = true := rfl

theorem breaksLine_return {rest : List Char} :
    breaksLine '\r' rest = true ↔ rest.head? ≠ some '\n' := by
  rw [← bne_iff_ne]
  exact Iff.rfl

theorem brokenLines_ne_nil (text : List Char) : brokenLines text ≠ [] := by
  cases text with
  | nil => simp [brokenLines]
  | cons char rest =>
    rw [brokenLines]
    split
    · simp
    · split <;> simp

/-- Only the last line of a text is empty. -/
theorem eq_nil_of_brokenLines {text : List Char} {lines : List (List Char)}
    (broken : brokenLines text = [] :: lines) : lines = [] := by
  cases text with
  | nil => simpa [brokenLines] using broken.symm
  | cons char rest =>
    rw [brokenLines] at broken
    split at broken
    · cases broken
    · split at broken <;> cases broken

/-- A character of a line breaks it exactly if it is the last one of a line that is not the last. -/
theorem breaksLine_iff {text : List Char} {done rest : List (List Char)} {line front back : List Char}
    {char : Char} (lines : brokenLines text = done ++ line :: rest)
    (split : line = front ++ char :: back) :
    breaksLine char (back ++ rest.flatten) = true ↔ back = [] ∧ rest ≠ [] := by
  induction text generalizing done line rest front back with
  | nil =>
    subst split
    rcases List.append_eq_singleton_iff.mp lines.symm with ⟨-, one⟩ | ⟨-, none⟩
    · simp at one
    · cases none
  | cons first others inductionHypothesis =>
    have whole := flatten_brokenLines others
    rw [brokenLines] at lines
    split at lines
    · next breaks =>
      cases done with
      | nil =>
        simp only [List.nil_append, List.cons.injEq] at lines
        obtain ⟨rfl, rfl⟩ := lines
        -- The line is its break.
        obtain ⟨rfl, rfl, rfl⟩ : front = [] ∧ first = char ∧ back = [] := by
          cases front <;> simp_all
        simp [whole, breaks, brokenLines_ne_nil]
      | cons head done =>
        simp only [List.cons_append, List.cons.injEq] at lines
        exact inductionHypothesis lines.2 split
    · next notBreaks =>
      split at lines
      · next none => exact absurd none (brokenLines_ne_nil others)
      · next head more broken =>
        cases done with
        | nil =>
          simp only [List.nil_append, List.cons.injEq] at lines
          obtain ⟨rfl, rfl⟩ := lines
          cases front with
          | nil =>
            simp only [List.nil_append, List.cons.injEq] at split
            obtain ⟨rfl, rfl⟩ := split
            rw [broken, List.flatten_cons] at whole
            rw [whole]
            refine iff_of_false notBreaks fun last => last.2 ?_
            exact eq_nil_of_brokenLines (last.1 ▸ broken)
          | cons second front =>
            simp only [List.cons_append, List.cons.injEq] at split
            obtain ⟨-, rfl⟩ := split
            exact @inductionHypothesis [] _ _ _ _ broken rfl
        | cons start done =>
          simp only [List.cons_append, List.cons.injEq] at lines
          obtain ⟨-, rfl⟩ := lines
          exact @inductionHypothesis (head :: done) _ _ _ _ broken split

/-! ### The end of a line -/

/-- The characters that are cut off the end of a line. -/
def isReturn (char : Char) : Bool :=
  char == '\n' || char == '\r'

theorem withoutReturns_eq (line : List Char) :
    withoutReturns line = dropEndWhile isReturn line := rfl

/-- A carriage return in a line is its break, or stands in front of the line feed that is. -/
theorem ending_of_return {text : List Char} {done rest : List (List Char)}
    {line front back : List Char} (lines : brokenLines text = done ++ line :: rest)
    (split : line = front ++ '\r' :: back) : rest ≠ [] ∧ (back = [] ∨ back = ['\n']) := by
  have breaks := breaksLine_iff lines split
  by_cases alone : back = []
  · subst alone
    -- Where nothing follows, the return would break the line.
    have more : rest ≠ [] := by
      rintro rfl
      have := breaks.mp (breaksLine_return.mpr (by simp))
      exact this.2 rfl
    exact ⟨more, Or.inl rfl⟩
  · have joined : ¬ breaksLine '\r' (back ++ rest.flatten) = true :=
      fun broken => alone (breaks.mp broken).1
    rw [breaksLine_return, not_not, List.head?_append,
      Option.or_of_isSome (List.isSome_head?.mpr alone)] at joined
    obtain ⟨tail, rfl⟩ := List.head?_eq_some_iff.mp joined
    have joinedSplit : line = (front ++ ['\r']) ++ '\n' :: tail := by simpa using split
    obtain ⟨rfl, more⟩ := (breaksLine_iff lines joinedSplit).mp (breaksLine_feed _)
    exact ⟨more, Or.inr rfl⟩

/-- What is cut off a line is one ending, and nothing is cut off the last line. -/
theorem exists_returns {text : List Char} {done rest : List (List Char)} {line : List Char}
    (lines : brokenLines text = done ++ line :: rest) :
    ∃ returns, line = withoutReturns line ++ returns ∧
      (returns = [] ∨ rest ≠ [] ∧
        (returns = ['\n'] ∨ returns = ['\r'] ∨ returns = ['\r', '\n'])) := by
  obtain ⟨returns, split, areReturns⟩ := exists_eq_dropEndWhile_append isReturn line
  rw [← withoutReturns_eq] at split
  refine ⟨returns, split, ?_⟩
  cases returns with
  | nil => exact Or.inl rfl
  | cons first others =>
    simp only [List.all_cons, Bool.and_eq_true, isReturn, Bool.or_eq_true, beq_iff_eq] at areReturns
    refine Or.inr ?_
    rcases areReturns.1 with rfl | rfl
    · obtain ⟨rfl, more⟩ := (breaksLine_iff lines split).mp (breaksLine_feed _)
      exact ⟨more, Or.inl rfl⟩
    · obtain ⟨more, rfl | rfl⟩ := ending_of_return lines split
      · exact ⟨more, Or.inr (Or.inl rfl)⟩
      · exact ⟨more, Or.inr (Or.inr rfl)⟩

/-! ### Lines and boundaries -/

/-- The boundary at an offset stands behind the lines `done` and behind `head` in its own line, and
at the end of a line only if that is the last one. -/
structure Divides (text : List Char) (offset : Nat) (done : List (List Char))
    (head tail : List Char) (rest : List (List Char)) : Prop where
  lines : brokenLines text = done ++ (head ++ tail) :: rest
  offset : size done.flatten + size head = offset
  inside : tail = [] → rest = []

/-- A division of some lines. -/
theorem exists_division {lines : List (List Char)} (some : lines ≠ []) {before after : List Char}
    (whole : lines.flatten = before ++ after) :
    ∃ done head tail rest, lines = done ++ (head ++ tail) :: rest ∧
      before = done.flatten ++ head ∧ (tail = [] → rest = []) := by
  induction lines generalizing before with
  | nil => exact absurd rfl some
  | cons line more inductionHypothesis =>
    by_cases last : more = []
    · subst last
      exact ⟨[], before, after, [], by simpa using whole, rfl, fun _ => rfl⟩
    · rw [List.flatten_cons] at whole
      by_cases here : size before < size line
      · obtain ⟨tail, rfl, -⟩ := exists_between whole.symm here.le
        refine ⟨[], before, tail, more, rfl, rfl, ?_⟩
        rintro rfl
        simp at here
      · obtain ⟨between, rfl, behind⟩ := exists_between whole (by omega)
        obtain ⟨done, head, tail, rest, rfl, rfl, inside⟩ := inductionHypothesis last behind
        exact ⟨line :: done, head, tail, rest, rfl, by simp, inside⟩

theorem exists_divides {text : List Char} {offset : Nat} (boundary : isBoundary text offset = true) :
    ∃ done head tail rest, Divides text offset done head tail rest := by
  rw [isBoundary, Option.isSome_iff_exists] at boundary
  obtain ⟨⟨before, after⟩, cut⟩ := boundary
  obtain ⟨whole, bytes⟩ := cut?_eq_some_iff.mp cut
  rw [← flatten_brokenLines text] at whole
  obtain ⟨done, head, tail, rest, lines, rfl, inside⟩ :=
    exists_division (brokenLines_ne_nil text) whole
  exact ⟨done, head, tail, rest, lines, by rw [← size_append, bytes], inside⟩

end PomLens.Text
