/-
This file says when the lines of a text all end alike.

A text is uniform in an ending if it is made of whole endings and of characters that end no line
(`Uniform`). Texts that are put together stay uniform, and so do the two parts of a text that is cut
where no ending is divided (`Uniform.cut`).
-/

import PomLens.Proofs.Text.Breaks

namespace PomLens.Text

/-- No line ends in the text. -/
def Unbroken (text : List Char) : Prop :=
  ∀ char ∈ text, isReturn char = false

instance (text : List Char) : Decidable (Unbroken text) :=
  decidable_of_iff (text.all (fun char => !isReturn char) = true) (by simp [Unbroken])

/-- Every carriage return and line feed of the text belongs to an ending `eol`. -/
inductive Uniform (eol : List Char) : List Char → Prop
  | nil : Uniform eol []
  | char {char : Char} {rest : List Char} (unbroken : isReturn char = false)
    (uniform : Uniform eol rest) : Uniform eol (char :: rest)
  | ending {rest : List Char} (uniform : Uniform eol rest) : Uniform eol (eol ++ rest)

theorem Unbroken.append {first second : List Char} (ofFirst : Unbroken first)
    (ofSecond : Unbroken second) : Unbroken (first ++ second) :=
  List.forall_mem_append.mpr ⟨ofFirst, ofSecond⟩

theorem Unbroken.flatMap {Part : Type} {parts : List Part} {text : Part → List Char}
    (each : ∀ part ∈ parts, Unbroken (text part)) : Unbroken (parts.flatMap text) := by
  intro char member
  obtain ⟨part, isPart, inPart⟩ := List.mem_flatMap.mp member
  exact each part isPart char inPart

variable {eol : List Char}

theorem Unbroken.uniform {text : List Char} (unbroken : Unbroken text) : Uniform eol text := by
  induction text with
  | nil => exact .nil
  | cons char rest inductionHypothesis =>
    obtain ⟨first, others⟩ := List.forall_mem_cons.mp unbroken
    exact .char first (inductionHypothesis others)

theorem uniform_eol : Uniform eol eol := by
  simpa using @Uniform.ending eol _ .nil

theorem Uniform.append {first second : List Char} (ofFirst : Uniform eol first)
    (ofSecond : Uniform eol second) : Uniform eol (first ++ second) := by
  induction ofFirst with
  | nil => exact ofSecond
  | char unbroken _ inductionHypothesis => exact .char unbroken inductionHypothesis
  | ending _ inductionHypothesis =>
    rw [List.append_assoc]
    exact .ending inductionHypothesis

theorem Uniform.flatMap {Part : Type} {parts : List Part} {text : Part → List Char}
    (each : ∀ part ∈ parts, Uniform eol (text part)) : Uniform eol (parts.flatMap text) := by
  induction parts with
  | nil => exact .nil
  | cons part rest inductionHypothesis =>
    obtain ⟨first, others⟩ := List.forall_mem_cons.mp each
    rw [List.flatMap_cons]
    exact first.append (inductionHypothesis others)

/-- An ending is divided only between a carriage return and a line feed. -/
theorem cut_ending (isEnding : eol = ['\n'] ∨ eol = ['\r', '\n']) {front back : List Char}
    (split : eol = front ++ back) :
    front = [] ∨ back = [] ∨ front.getLast? = some '\r' ∧ back.head? = some '\n' := by
  rcases isEnding with rfl | rfl
  · rcases List.append_eq_singleton_iff.mp split.symm with ⟨none, -⟩ | ⟨-, none⟩
    · exact Or.inl none
    · exact Or.inr (Or.inl none)
  · match front, split with
    | [], _ => exact Or.inl rfl
    | ['\r'], split =>
      obtain rfl : back = ['\n'] := by simpa using split.symm
      exact Or.inr (Or.inr ⟨rfl, rfl⟩)
    | first :: second :: rest, split =>
      obtain ⟨-, -, -, none⟩ : '\r' = first ∧ '\n' = second ∧ rest = [] ∧ back = [] := by
        simpa using split
      exact Or.inr (Or.inl none)

/-- If no ending is divided where a uniform text is cut, both parts are uniform. -/
theorem Uniform.cut (isEnding : eol = ['\n'] ∨ eol = ['\r', '\n']) {front back : List Char}
    (uniform : Uniform eol (front ++ back))
    (apart : front.getLast? = some '\r' → back.head? ≠ some '\n') :
    Uniform eol front ∧ Uniform eol back := by
  generalize whole : front ++ back = text at uniform
  induction uniform generalizing front with
  | nil =>
    obtain ⟨rfl, rfl⟩ := List.append_eq_nil_iff.mp whole
    exact ⟨.nil, .nil⟩
  | @char char rest unbroken uniform inductionHypothesis =>
    cases front with
    | nil =>
      rw [List.nil_append] at whole
      exact ⟨.nil, whole ▸ .char unbroken uniform⟩
    | cons first front =>
      obtain ⟨rfl, behind⟩ := List.cons.inj whole
      have apart' (isReturn : front.getLast? = some '\r') : back.head? ≠ some '\n' :=
        apart (by rw [List.getLast?_cons, isReturn]; rfl)
      obtain ⟨left, right⟩ := inductionHypothesis apart' behind
      exact ⟨.char unbroken left, right⟩
  | @ending rest uniform inductionHypothesis =>
    rcases List.append_eq_append_iff.mp whole with ⟨inside, split, same⟩ | ⟨inside, same, split⟩
    · -- The cut is in the ending or at one of its ends.
      rcases cut_ending isEnding split with rfl | rfl | ⟨isReturn, isFeed⟩
      · rw [List.nil_append] at whole
        exact ⟨.nil, whole ▸ .ending uniform⟩
      · rw [List.append_nil] at split
        rw [List.nil_append] at same
        exact ⟨split ▸ uniform_eol, same ▸ uniform⟩
      · refine absurd ?_ (apart isReturn)
        rw [same, List.head?_append, isFeed]
        rfl
    · have apart' (isReturn : inside.getLast? = some '\r') : back.head? ≠ some '\n' :=
        apart (by rw [same, List.getLast?_append, isReturn]; rfl)
      obtain ⟨left, right⟩ := inductionHypothesis apart' split.symm
      exact ⟨same ▸ .ending left, right⟩

end PomLens.Text
