/-
This file searches a text for a mark and cuts it at the byte offsets that are found.

A mark is found where it starts for the first time (`splitAtText?_eq_some_iff`). The place is told
as a byte offset (`find?`), and offsets may lie inside a character; those that come out of a search
never do, so what stands behind them can always be had (`sliceFrom?_append`).
-/

import PomLens.Proofs.Text.Cutting
import PomLens.Text.Span

namespace PomLens.Text

/-! ### The first occurrence of a mark -/

/-- A text is split at an occurrence of a mark in front of which none starts. -/
theorem splitAtText?_eq_some_iff {mark text before after : List Char} (marked : mark ≠ []) :
    splitAtText? mark text = some (before, after) ↔
      text = before ++ (mark ++ after) ∧
        ∀ front back, text = front ++ (mark ++ back) → before.length ≤ front.length := by
  induction text generalizing before with
  | nil => simp [splitAtText?, marked]
  | cons char rest inductionHypothesis =>
    rw [splitAtText?]
    cases starts : afterPrefix? mark (char :: rest) with
    | some tail =>
      have whole := afterPrefix?_eq_some_iff.mp starts
      constructor
      · intro same
        obtain ⟨rfl, rfl⟩ : [] = before ∧ tail = after := by simpa using same
        exact ⟨whole, fun front _ _ => Nat.zero_le front.length⟩
      · rintro ⟨split, first⟩
        obtain rfl : before = [] := List.length_eq_zero_iff.mp (Nat.le_zero.mp (first [] tail whole))
        obtain rfl : tail = after :=
          List.append_cancel_left (whole.symm.trans (split.trans (List.nil_append _)))
        rfl
    | none =>
      have later (front back : List Char) (split : char :: rest = front ++ (mark ++ back)) :
          ∃ others, front = char :: others ∧ rest = others ++ (mark ++ back) := by
        cases front with
        | nil => cases starts.symm.trans (afterPrefix?_eq_some_iff.mpr split)
        | cons head others =>
          obtain ⟨rfl, behind⟩ := List.cons.inj split
          exact ⟨others, rfl, behind⟩
      simp only [Option.map_eq_some_iff, Prod.exists, Prod.mk.injEq]
      constructor
      · rintro ⟨others, tail, found, rfl, rfl⟩
        obtain ⟨split, first⟩ := inductionHypothesis.mp found
        refine ⟨congrArg (char :: ·) split, fun front back whole => ?_⟩
        obtain ⟨further, rfl, behind⟩ := later front back whole
        exact Nat.succ_le_succ (first further back behind)
      · rintro ⟨split, first⟩
        obtain ⟨others, rfl, behind⟩ := later before after split
        refine ⟨others, after, inductionHypothesis.mpr ⟨behind, fun front back whole => ?_⟩, rfl, rfl⟩
        exact Nat.le_of_succ_le_succ (first (char :: front) back (congrArg (char :: ·) whole))

theorem splitAtText?_eq_none_iff {mark text : List Char} (marked : mark ≠ []) :
    splitAtText? mark text = none ↔ ¬ mark <:+: text := by
  refine ⟨?_, splitAtText?_eq_none⟩
  rintro nowhere ⟨front, back, whole⟩
  induction text generalizing front with
  | nil => simp [marked] at whole
  | cons char rest inductionHypothesis =>
    obtain ⟨notHere, notLater⟩ := splitAtText?_cons_eq_none.mp nowhere
    cases front with
    | nil => cases notHere.symm.trans (afterPrefix?_eq_some_iff.mpr whole.symm)
    | cons head others => exact inductionHypothesis notLater others (List.cons.inj whole).2

/-! ### The first of a character -/

variable {mark : Char} {text before after : List Char}

theorem splitOnce?_eq_some_iff : splitOnce? (· == mark) text = some (before, after) ↔
    text = before ++ mark :: after ∧ mark ∉ before := by
  constructor
  · intro found
    have free := free_of_splitOnce? (· == mark) text
    rw [found] at free
    refine ⟨?_, fun member => absurd (free mark member) (by simp)⟩
    rw [splitOnce?] at found
    split at found
    · cases found
    · next first rest behind =>
      cases found
      have stopped := List.head?_dropWhile_not (fun char => !(char == mark)) text
      rw [behind] at stopped
      obtain rfl : first = mark := by simpa using stopped
      rw [← behind, List.takeWhile_append_dropWhile]
  · rintro ⟨rfl, free⟩
    have others : ∀ char ∈ before, (char == mark) = false := fun char member =>
      beq_false_of_ne fun same => free (same ▸ member)
    exact splitOnce?_append others (beq_self_eq_true mark) after

theorem splitOnce?_eq_none_iff : splitOnce? (· == mark) text = none ↔ mark ∉ text := by
  constructor
  · intro nowhere member
    obtain ⟨front, back, rfl, free⟩ := List.eq_append_cons_of_mem member
    cases nowhere.symm.trans (splitOnce?_eq_some_iff.mpr ⟨rfl, free⟩)
  · intro absent
    exact splitOnce?_eq_none fun char member => beq_false_of_ne fun same => absent (same ▸ member)

/-- A character does not stand in front of a text without it. -/
theorem length_le_of_not_mem {front back : List Char} (free : mark ∉ before)
    (same : before ++ mark :: after = front ++ mark :: back) : before.length ≤ front.length := by
  rcases List.append_eq_append_iff.mp same with ⟨between, rfl, -⟩ | ⟨between, rfl, behind⟩
  · simp
  · cases between with
    | nil => simp
    | cons head others =>
      obtain ⟨rfl, -⟩ := List.cons.inj behind
      exact absurd (by simp) free

/-! ### Byte offsets -/

/-- The byte offset at which the first occurrence of a mark starts. -/
def find? (mark text : List Char) : Option Nat :=
  (splitAtText? mark text).map fun (before, _) => size before

/-- What stands behind a byte offset. There is nothing to be had where it cuts a character. -/
def sliceFrom? (offset : Nat) (text : List Char) : Option (List Char) :=
  (cut? offset text).map Prod.snd

theorem sliceFrom?_append (before after : List Char) :
    sliceFrom? (size before) (before ++ after) = some after := by
  rw [sliceFrom?, cut?_eq_some_iff.mpr ⟨rfl, rfl⟩, Option.map_some]

/-- A mark is found behind what it is first found behind. -/
theorem find?_append {mark before after : List Char} (marked : mark ≠ [])
    (first : ∀ front back, before ++ (mark ++ after) = front ++ (mark ++ back) →
      before.length ≤ front.length) :
    find? mark (before ++ (mark ++ after)) = some (size before) := by
  rw [find?, (splitAtText?_eq_some_iff marked).mpr ⟨rfl, first⟩, Option.map_some]

theorem find?_singleton_append (free : mark ∉ before) (after : List Char) :
    find? [mark] (before ++ mark :: after) = some (size before) :=
  find?_append (List.cons_ne_nil _ _) fun _ _ same => length_le_of_not_mem free same

theorem find?_singleton_eq_none (absent : mark ∉ text) : find? [mark] text = none := by
  rw [find?, Option.map_eq_none_iff, splitAtText?_eq_none_iff (List.cons_ne_nil _ _)]
  exact fun within => absent (within.subset (List.mem_singleton_self mark))

end PomLens.Text
