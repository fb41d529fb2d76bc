/-
This file proves that versions made of numbers compare as sequences of numbers.

A part of decimal digits is read as the number it stands for, however many zeros it begins with
(`ofText_eq`). Missing parts count as zeros already, so nothing else is left to be compared
(`compare_numerals`). That ends at the bound of a number: digits for a larger one are a qualifier,
and come before all numbers (`compare_pastBound`).
-/

import Mathlib
import PomLens.Proofs.Version.Order

namespace PomLens.Version

/-- The parts of a version between its separators, less those that are empty. -/
def parts (version : String) : List (List Char) :=
  (Text.splitOn (fun char => char == '.' || char == '-') version.toList).filter
    fun part => !part.isEmpty

/-- Decimal digits, and nothing else. -/
def IsNumeral (part : List Char) : Prop :=
  ∀ char ∈ part, char.isDigit = true

instance (part : List Char) : Decidable (IsNumeral part) :=
  decidable_of_iff (part.all Char.isDigit = true) List.all_eq_true

/-- The number that decimal digits stand for. -/
def numeral (digits : List Char) : Nat :=
  Nat.ofDigits 10 (digits.map fun digit => digit.toNat - '0'.toNat).reverse

/-- The numbers that a version is made of. -/
def numbers (version : String) : List Nat :=
  (parts version).map numeral

theorem numeral_concat (digits : List Char) (digit : Char) :
    numeral (digits ++ [digit]) = (digit.toNat - '0'.toNat) + 10 * numeral digits := by
  simp [numeral, Nat.ofDigits_cons]

/-- Reading digit by digit gives the number that they stand for. -/
theorem foldl_eq_numeral (digits : List Char) :
    digits.foldl (fun value digit => 10 * value + (digit.toNat - '0'.toNat)) 0 = numeral digits := by
  induction digits using List.reverseRecOn with
  | nil => rfl
  | append_singleton digits digit inductionHypothesis =>
    rw [List.foldl_append, inductionHypothesis, numeral_concat, Nat.add_comm]
    rfl

variable {part : List Char}

theorem decimal?_eq (some : part ≠ []) (isNumeral : IsNumeral part) :
    decimal? part = .some (numeral part) := by
  have digits : part.all Char.isDigit = true := List.all_eq_true.mpr isNumeral
  rw [decimal?, List.isEmpty_eq_false_iff.mpr some, digits, ← foldl_eq_numeral]
  rfl

/-- Digits are read as a number up to the bound. -/
theorem number?_eq (some : part ≠ []) (isNumeral : IsNumeral part) :
    number? part = if numeral part < numberBound then .some (numeral part) else none := by
  have unsigned : number? part = (decimal? part).filter (· < numberBound) := by
    unfold number?
    split
    · exact absurd (isNumeral '+' List.mem_cons_self) (by decide)
    · rfl
  rw [unsigned, decimal?_eq some isNumeral]
  simp [Option.filter]

theorem ofText_eq (some : part ≠ []) (isNumeral : IsNumeral part)
    (fits : numeral part < numberBound) : Segment.ofText part = .number (numeral part) := by
  rw [Segment.ofText, number?_eq some isNumeral, if_pos fits]

theorem ne_nil_of_mem_parts {version : String} (isPart : part ∈ parts version) : part ≠ [] := by
  simpa using (List.mem_filter.mp isPart).2

theorem segments_eq {version : String} (numeric : ∀ part ∈ parts version, IsNumeral part)
    (fits : ∀ number ∈ numbers version, number < numberBound) :
    segments version = (numbers version).map .number := by
  rw [numbers, List.map_map]
  refine List.map_congr_left fun part isPart => ?_
  exact ofText_eq (ne_nil_of_mem_parts isPart) (numeric part isPart)
    (fits _ (List.mem_map_of_mem isPart))

theorem compareLex_map_number (left right : List Nat) :
    List.compareLex Segment.compare (left.map .number) (right.map .number) =
      List.compareLex Ord.compare left right := by
  induction left generalizing right with
  | nil => cases right <;> rfl
  | cons first left inductionHypothesis =>
    cases right with
    | nil => rfl
    | cons other right =>
      rw [List.map_cons, List.map_cons, List.compareLex_cons_cons, List.compareLex_cons_cons,
        inductionHypothesis]
      rfl

theorem filled_map_number (width : Nat) (numbers : List Nat) :
    filled width (numbers.map .number) = (numbers.rightpad width 0).map .number := by
  simp [filled, List.rightpad]

/-- Digits past the bound are no number, and come before every number. -/
theorem compare_ofText_pastBound {other : List Char} (some : part ≠ [])
    (isNumeral : IsNumeral part) (past : numberBound ≤ numeral part) (some' : other ≠ [])
    (isNumeral' : IsNumeral other) (fits : numeral other < numberBound) :
    (Segment.ofText part).compare (Segment.ofText other) = .lt := by
  rw [ofText_eq some' isNumeral' fits, Segment.ofText, number?_eq some isNumeral,
    if_neg (Nat.not_lt.mpr past)]
  rfl

/-- Versions of decimal digits compare as the sequences of their numbers, the shorter one filled up
with zeros, if all these are below 2 ^ 64. A part that is not comes before every part that is. -/
theorem compare_numerals {left right : String}
    (numeric : ∀ part ∈ parts left ++ parts right, IsNumeral part) :
    ((∀ number ∈ numbers left ++ numbers right, number < 2 ^ 64) →
      compare left right =
        List.compareLex Ord.compare
          ((numbers left).rightpad (max (numbers left).length (numbers right).length) 0)
          ((numbers right).rightpad (max (numbers left).length (numbers right).length) 0)) ∧
    ∀ past ∈ parts left, ∀ other ∈ parts right, 2 ^ 64 ≤ numeral past → numeral other < 2 ^ 64 →
      (Segment.ofText past).compare (Segment.ofText other) = .lt := by
  obtain ⟨numericLeft, numericRight⟩ := List.forall_mem_append.mp numeric
  refine ⟨fun fits => ?_, fun past isPart other isPart' large small => ?_⟩
  · obtain ⟨fitsLeft, fitsRight⟩ := List.forall_mem_append.mp fits
    have wide : ((numbers left).map Segment.number).length ≤
        max (numbers left).length (numbers right).length := by simp
    have wide' : ((numbers right).map Segment.number).length ≤
        max (numbers left).length (numbers right).length := by simp
    rw [compare, segments_eq numericLeft fitsLeft, segments_eq numericRight fitsRight,
      compareSegments_eq wide wide', filled_map_number, filled_map_number, compareLex_map_number]
  · exact compare_ofText_pastBound (ne_nil_of_mem_parts isPart) (numericLeft past isPart) large
      (ne_nil_of_mem_parts isPart') (numericRight other isPart') small

/-- Leading zeros, the kind of separator and missing places do not count, and the first number that
does not fit comes before a smaller one. -/
theorem compare_numerals_places :
    numbers "1.010" = [1, 10] ∧ numbers "1-10.0.2" = [1, 10, 0, 2] ∧
    compare "1.010" "1-10.0.2" = List.compareLex Ord.compare [1, 10, 0, 0] [1, 10, 0, 2] ∧
    (Segment.ofText "18446744073709551616".toList).compare (Segment.ofText ['2']) = .lt := by
  have first : numbers "1.010" = [1, 10] := by decide +kernel
  have second : numbers "1-10.0.2" = [1, 10, 0, 2] := by decide +kernel
  have numeric : ∀ part ∈ parts "1.010" ++ parts "1-10.0.2", IsNumeral part := by decide +kernel
  have numeric' : ∀ part ∈ parts "18446744073709551616" ++ parts "2", IsNumeral part := by decide +kernel
  have places := (compare_numerals numeric).1 (by rw [first, second]; decide)
  rw [first, second] at places
  exact ⟨first, second, places, (compare_numerals numeric').2 _ (by decide +kernel) ['2']
    (by decide +kernel) (by decide +kernel) (by decide +kernel)⟩

/-- The first number that is past the bound is the larger one, and compares as the smaller. -/
theorem compare_pastBound :
    let left := "18446744073709551616"
    let right := "18446744073709551615"
    (∀ part ∈ parts left ++ parts right, IsNumeral part) ∧
    List.compareLex Ord.compare ((numbers left).rightpad 1 0) ((numbers right).rightpad 1 0) = .gt ∧
    compare left right = .lt :=
  ⟨by decide +kernel, by decide +kernel, by cbv⟩

end PomLens.Version
