/-
This file looks at the edges of what stands inside an element.

The pieces inside an element are enclosed: an angle bracket ends the markup before them and one
begins the markup behind them. Blanks that reach to an edge of some pieces are therefore pieces
of data, and none of them belongs to the markup around (`blanks_before`, `blanks_behind`). This
is what lets a line be removed with the element on it.
-/

import Mathlib.Data.List.Induction
import PomLens.Proofs.Markup.Outline

namespace PomLens.Markup.Piece

open Text (StandsAt blank)

/-! ### Blanks and brackets -/

theorem not_mem_of_blank {text : List Char} (blanks : blank text = true) {char : Char}
    (visible : Text.isBlank char = false) : char ∉ text := by
  intro member
  have := List.all_eq_true.mp blanks char member
  rw [visible] at this
  cases this

/-- The text of markup begins and ends with an angle bracket. -/
theorem written_of_isMarkup {piece : Piece} (markup : piece.isMarkup = true)
    (sound : Sound [piece]) : ∃ content, written [piece] = '<' :: content ++ ['>'] := by
  cases piece with
  | char one => simp [isMarkup] at markup
  | literal content =>
    simp only [Sound, and_true] at sound
    simpa [written] using written_of_delimited sound (by simp)
  | aside text =>
    simp only [Sound, and_true] at sound
    simpa [written] using written_of_delimited sound (by simp)
  | single body =>
    simp only [Sound, and_true] at sound
    simpa [written] using written_of_delimited sound (by simp)
  | pair opening within closing =>
    refine ⟨opening ++ ['>'] ++ written within ++ '<' :: '/' :: closing, ?_⟩
    simp [written, Token.written]

/-- Blanks at the end of the text of some pieces are data. -/
theorem data_of_blank_end {pieces : List Piece} (sound : Sound pieces) {first lead : List Char}
    (same : written pieces = first ++ lead) (blanks : blank lead = true) :
    ∃ kept, pieces = kept ++ data lead ∧ written kept = first := by
  induction lead using List.reverseRecOn generalizing pieces with
  | nil => exact ⟨pieces, by simp, by simpa using same⟩
  | append_singleton others last inductionHypothesis =>
    obtain ⟨blankOthers, blankLast⟩ : blank others = true ∧ Text.isBlank last = true := by
      simpa [blank] using blanks
    rcases List.eq_nil_or_concat pieces with rfl | ⟨before, piece, rfl⟩
    · simp at same
    · rw [List.concat_eq_append] at sound same ⊢
      rw [sound_append] at sound
      rw [written_append, ← List.append_assoc] at same
      by_cases markup : piece.isMarkup = true
      · obtain ⟨content, brackets⟩ := written_of_isMarkup markup sound.2
        have ends := congrArg List.getLast? same
        rw [brackets] at ends
        simp only [List.getLast?_append, List.getLast?_singleton, Option.some_or,
          Option.some.injEq] at ends
        rw [← ends] at blankLast
        exact absurd blankLast (by decide)
      · obtain ⟨one, rfl⟩ : ∃ one, piece = .char one := by
          cases piece <;> simp_all [isMarkup]
        have whole : written before ++ [one] = (first ++ others) ++ [last] := by
          simpa [written] using same
        obtain ⟨behind, ends⟩ := List.append_inj' whole rfl
        simp only [List.cons.injEq, and_true] at ends
        subst ends
        obtain ⟨kept, rfl, same'⟩ := inductionHypothesis sound.1 behind blankOthers
        exact ⟨kept, by simp [data], same'⟩

/-- Blanks at the start of the text of some pieces are data, if markup stands behind them. -/
theorem data_of_blank_start {pieces : List Piece} (sound : Sound pieces)
    {after tail rest : List Char} (same : written pieces ++ '<' :: after = tail ++ rest)
    (blanks : blank tail = true) : ∃ others, pieces = data tail ++ others := by
  induction tail generalizing pieces with
  | nil => exact ⟨pieces, rfl⟩
  | cons head more inductionHypothesis =>
    obtain ⟨blankHead, blankMore⟩ : Text.isBlank head = true ∧ blank more = true := by
      simpa [blank] using blanks
    cases pieces with
    | nil =>
      simp only [written_nil, List.nil_append, List.cons_append, List.cons.injEq] at same
      rw [← same.1] at blankHead
      exact absurd blankHead (by decide)
    | cons piece others =>
      rw [sound_cons] at sound
      rw [written_cons, List.append_assoc] at same
      by_cases markup : piece.isMarkup = true
      · obtain ⟨content, brackets⟩ := written_of_isMarkup markup sound.1
        rw [brackets] at same
        simp only [List.cons_append, List.cons.injEq] at same
        rw [← same.1] at blankHead
        exact absurd blankHead (by decide)
      · obtain ⟨one, rfl⟩ : ∃ one, piece = .char one := by
          cases piece <;> simp_all [isMarkup]
        simp only [written, List.cons_append, List.nil_append, List.cons.injEq] at same
        obtain ⟨rfl, behind⟩ := same
        obtain ⟨left, rfl⟩ := inductionHypothesis sound.2 behind blankMore
        exact ⟨left, rfl⟩

/-! ### Enclosed pieces -/

/-- The pieces stand at an offset of the source, with markup before and behind them. -/
def Enclosed (source : List Char) (inner : Nat) (content : List Piece) : Prop :=
  ∃ before after, source = before ++ '>' :: (written content ++ '<' :: after) ∧
    Text.size before + 1 = inner

theorem Enclosed.standsAt {source : List Char} {inner : Nat} {content : List Piece}
    (enclosed : Enclosed source inner content) : StandsAt source inner (written content) := by
  obtain ⟨before, after, whole, bytes⟩ := enclosed
  have bracket : ('>' : Char).utf8Size = 1 := by decide
  exact ⟨before ++ ['>'], '<' :: after, by simp [whole], by simp [← bytes, bracket]⟩

/-- What is inside an element is enclosed. -/
theorem enclosed_of_pair {source opening closing : List Char} {offset : Nat}
    {within : List Piece}
    (stands : StandsAt source offset (written [.pair opening within closing])) :
    Enclosed source (innerStart offset opening) within := by
  obtain ⟨before, after, whole, bytes⟩ := stands
  have bracket : ('>' : Char).utf8Size = 1 := by decide
  refine ⟨before ++ '<' :: opening, '/' :: closing ++ '>' :: after, ?_, ?_⟩
  · rw [whole]
    simp [written, Token.written]
  · simp [innerStart, Token.written, ← bytes, bracket]
    omega

/-- Blanks right before a piece are data. -/
theorem blanks_before {source : List Char} {inner : Nat} {first rest : List Piece}
    (enclosed : Enclosed source inner (first ++ rest)) (sound : Sound first)
    {before lead after : List Char} (whole : source = before ++ (lead ++ after))
    (bytes : Text.size (before ++ lead) = inner + Text.size (written first))
    (blanks : blank lead = true) : ∃ kept, first = kept ++ data lead := by
  obtain ⟨outer, behind, source', bytes'⟩ := enclosed
  have bracket : ('>' : Char).utf8Size = 1 := by decide
  -- Both cut the source at the same offset.
  have same : before ++ lead = outer ++ '>' :: written first := by
    have cut := Text.cut?_eq_some_iff.mpr
      ⟨(by simp [whole] : source = (before ++ lead) ++ after), rfl⟩
    have cut' : Text.cut? (Text.size (before ++ lead)) source =
        some (outer ++ '>' :: written first, written rest ++ '<' :: behind) :=
      Text.cut?_eq_some_iff.mpr ⟨by simp [source'], by
        rw [bytes, ← bytes']; simp [bracket]; omega⟩
    rw [cut] at cut'
    simp only [Option.some.injEq, Prod.mk.injEq] at cut'
    exact cut'.1
  have leadSuffix : lead <:+ outer ++ '>' :: written first := ⟨before, same⟩
  have noBracket : '>' ∉ lead := not_mem_of_blank blanks (by decide)
  obtain ⟨others, split⟩ : lead <:+ written first := by
    rcases List.suffix_or_suffix_of_suffix leadSuffix
      (List.suffix_append outer ('>' :: written first)) with inside | outside
    · rcases List.suffix_cons_iff.mp inside with whole | inside
      · rw [whole] at noBracket
        exact absurd List.mem_cons_self noBracket
      · exact inside
    · exact absurd (outside.subset List.mem_cons_self) noBracket
  obtain ⟨kept, shown, -⟩ := data_of_blank_end sound split.symm blanks
  exact ⟨kept, shown⟩

/-- Blanks right behind a piece are data. -/
theorem blanks_behind {source : List Char} {inner : Nat} {first rest : List Piece}
    (enclosed : Enclosed source inner (first ++ rest)) (sound : Sound rest)
    {before tail after : List Char} (whole : source = before ++ (tail ++ after))
    (bytes : Text.size before = inner + Text.size (written first))
    (blanks : blank tail = true) : ∃ others, rest = data tail ++ others := by
  obtain ⟨outer, behind, source', bytes'⟩ := enclosed
  have bracket : ('>' : Char).utf8Size = 1 := by decide
  have cut := Text.cut?_eq_some_iff.mpr ⟨whole, rfl⟩
  have cut' : Text.cut? (Text.size before) source =
      some (outer ++ '>' :: written first, written rest ++ '<' :: behind) :=
    Text.cut?_eq_some_iff.mpr ⟨by simp [source'], by
      rw [bytes, ← bytes']; simp [bracket]; omega⟩
  rw [cut] at cut'
  simp only [Option.some.injEq, Prod.mk.injEq] at cut'
  exact data_of_blank_start sound cut'.2.symm blanks

end PomLens.Markup.Piece
