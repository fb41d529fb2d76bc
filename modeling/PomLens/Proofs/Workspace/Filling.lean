/-
This file says how the placeholders of a text are replaced by values.

A text is split in one way only: at the first start of a placeholder and the nearest end behind it,
and so on with what is left, until a start has no end behind it (`splits_iff`). A value takes the
place of a placeholder in the text that comes out and not in the text that is left, so it is never
searched. The same text comes out of a search by byte offsets that cuts slices out of the text that
is left (`Searches`). Its rounds take one placeholder each, no slice of theirs cuts a character, and
they come to an end.
-/

import PomLens.Proofs.Markup.Standing
import PomLens.Proofs.Text.Searching
import PomLens.Workspace.Inheritance

namespace PomLens

open Text (StandsAt find? sliceFrom? size)

/-! ### The one way to split a text -/

/-- The text is divided into these pieces from the left. -/
inductive Splits : List Char → List Piece → Prop
  /-- No start has an end behind it. -/
  | rest {text : List Char}
    (unclosed : ∀ front back, text = front ++ (placeholderStart ++ back) → '\x7d' ∉ back) :
    Splits text [.plain text]
  /-- The first start, the nearest end behind it, and then what is left. -/
  | placeholder {text before name after : List Char} {parts : List Piece}
    (whole : text = before ++ (placeholderStart ++ (name ++ '\x7d' :: after)))
    (first : ∀ front back, text = front ++ (placeholderStart ++ back) →
      before.length ≤ front.length)
    (nearest : '\x7d' ∉ name)
    (further : Splits after parts) :
    Splits text (.plain before :: .placeholder name :: parts)

theorem placeholderStart_ne_nil : placeholderStart ≠ [] := List.cons_ne_nil _ _

theorem splits_pieces (text : List Char) : Splits text (pieces text) := by
  fun_induction pieces text with
  | case1 text absent =>
    refine .rest fun front back whole => ?_
    exact absurd ⟨front, back, by rw [whole, List.append_assoc]⟩
      ((Text.splitAtText?_eq_none_iff placeholderStart_ne_nil).mp absent)
  | case2 text before rest started unended =>
    -- What is behind a later start is behind the first one too.
    obtain ⟨rfl, first⟩ := (Text.splitAtText?_eq_some_iff placeholderStart_ne_nil).mp started
    have unclosed := Text.splitOnce?_eq_none_iff.mp unended
    refine .rest fun front back whole closed => unclosed ?_
    have sizes := congrArg List.length whole
    have noLonger := first front back whole
    simp only [List.length_append] at sizes
    have behind : back <:+ rest := List.suffix_of_suffix_length_le
      ((List.suffix_append placeholderStart back).trans (List.suffix_append front _))
      (whole ▸ (List.suffix_append placeholderStart rest).trans (List.suffix_append before _))
      (by omega)
    exact behind.subset closed
  | case3 text before rest started name after ended inductionHypothesis =>
    obtain ⟨whole, first⟩ := (Text.splitAtText?_eq_some_iff placeholderStart_ne_nil).mp started
    obtain ⟨rfl, nearest⟩ := Text.splitOnce?_eq_some_iff.mp ended
    exact .placeholder whole first nearest inductionHypothesis

/-- A text is split as the pieces are read, and in no other way. -/
theorem splits_iff {text : List Char} {parts : List Piece} :
    Splits text parts ↔ parts = pieces text := by
  refine ⟨fun splits => ?_, fun same => same ▸ splits_pieces text⟩
  induction splits with
  | rest unclosed =>
    rw [pieces]
    split
    · rfl
    · next before rest started =>
      obtain ⟨whole, -⟩ := (Text.splitAtText?_eq_some_iff placeholderStart_ne_nil).mp started
      have unended := Text.splitOnce?_eq_none_iff.mpr (unclosed before rest whole)
      split
      · rfl
      · next ended => cases unended.symm.trans ended
  | @placeholder text before name after parts whole first nearest _ inductionHypothesis =>
    have started := (Text.splitAtText?_eq_some_iff placeholderStart_ne_nil).mpr ⟨whole, first⟩
    have ended : Text.splitOnce? (· == '\x7d') (name ++ '\x7d' :: after) = some (name, after) :=
      Text.splitOnce?_eq_some_iff.mpr ⟨rfl, nearest⟩
    rw [pieces]
    split
    · next nothing => cases nothing.symm.trans started
    · next found =>
      cases found.symm.trans started
      split
      · next nothing => cases nothing.symm.trans ended
      · next found =>
        cases found.symm.trans ended
        rw [inductionHypothesis]

/-- The pieces are the text that was split. -/
theorem Splits.flatMap_written {text : List Char} {parts : List Piece} (splits : Splits text parts) :
    parts.flatMap Piece.written = text := by
  induction splits with
  | rest => simp [Piece.written]
  | placeholder whole _ _ _ inductionHypothesis =>
    rw [List.flatMap_cons, List.flatMap_cons, inductionHypothesis, whole]
    simp [Piece.written]

/-- Placeholders without values stay as they were written. -/
theorem flatMap_fill_of_unresolved {value? : String → Option String} {parts : List Piece}
    (unresolved : ∀ name, .placeholder name ∈ parts → value? (String.ofList name) = none) :
    parts.flatMap (Piece.fill value?) = parts.flatMap Piece.written := by
  rw [List.flatMap_def, List.flatMap_def]
  refine congrArg List.flatten (List.map_congr_left fun part member => ?_)
  cases part with
  | plain text => rfl
  | placeholder name => rw [Piece.fill, unresolved name member]

/-! ### The search by byte offsets -/

/-- What a round of the search comes to. -/
inductive Round
  /-- There is no placeholder. -/
  | finished
  /-- What is written up to the end of the first placeholder, and the text behind it. -/
  | turned (written rest : List Char)

/-- A round of the search in the text that is left. It fails if a slice cuts a character. -/
def round? (value? : String → Option String) (text : List Char) : Option Round :=
  match find? placeholderStart text with
  | none => some .finished
  | some start => do
    let behind ← sliceFrom? (start + 2) text
    match find? ['\x7d'] behind with
    | none => return .finished
    | some stop =>
      let name ← (Span.between (start + 2) (start + 2 + stop)).slice? text
      let before ← (Span.between 0 start).slice? text
      let own ← (Span.between start (start + 3 + stop)).slice? text
      let rest ← sliceFrom? (start + 3 + stop) text
      return .turned (before ++ ((value? (String.ofList name)).map String.toList).getD own) rest

/-- The search goes round until there is no placeholder, and this is what it writes. -/
inductive Searches (value? : String → Option String) : List Char → List Char → Prop
  | finished {text : List Char} (round : round? value? text = some .finished) :
    Searches value? text text
  | turned {text written rest out : List Char}
    (round : round? value? text = some (.turned written rest))
    (further : Searches value? rest out) : Searches value? text (written ++ out)

variable {value? : String → Option String} {text before name after out : List Char}

theorem size_placeholderStart : size placeholderStart = 2 := by decide

/-- What stands behind the start of a placeholder. -/
theorem sliceFrom?_behind_start (before rest : List Char) :
    sliceFrom? (size before + 2) (before ++ (placeholderStart ++ rest)) = some rest := by
  have slice := Text.sliceFrom?_append (before ++ placeholderStart) rest
  rwa [Text.size_append, size_placeholderStart, List.append_assoc] at slice

theorem round?_of_unclosed
    (unclosed : ∀ front back, text = front ++ (placeholderStart ++ back) → '\x7d' ∉ back) :
    round? value? text = some .finished := by
  rw [round?]
  cases found : find? placeholderStart text with
  | none => rfl
  | some start =>
    obtain ⟨⟨before, rest⟩, started, rfl⟩ := Option.map_eq_some_iff.mp found
    obtain ⟨rfl, -⟩ := (Text.splitAtText?_eq_some_iff placeholderStart_ne_nil).mp started
    have unended := Text.find?_singleton_eq_none (unclosed before rest rfl)
    simp only [sliceFrom?_behind_start, Option.bind_eq_bind, Option.bind_some, unended]
    rfl

/-- A round takes what is in front of the first placeholder and fills that one. -/
theorem round?_of_placeholder
    (whole : text = before ++ (placeholderStart ++ (name ++ '\x7d' :: after)))
    (first : ∀ front back, text = front ++ (placeholderStart ++ back) →
      before.length ≤ front.length)
    (nearest : '\x7d' ∉ name) :
    round? value? text = some (.turned (before ++ Piece.fill value? (.placeholder name)) after) := by
  have start : find? placeholderStart text = some (size before) := by
    rw [whole] at first ⊢
    exact Text.find?_append placeholderStart_ne_nil first
  have behind : sliceFrom? (size before + 2) text = some (name ++ '\x7d' :: after) := by
    rw [whole, sliceFrom?_behind_start]
  have stop := Text.find?_singleton_append nearest after
  have lead : StandsAt text 0 before := ⟨[], _, whole, rfl⟩
  have own : StandsAt text (size before) (Piece.placeholder name).written :=
    ⟨before, after, by simp [whole, Piece.written], rfl⟩
  have sizeOwn : size (Piece.placeholder name).written = 3 + size name := by
    have brace : ('\x7d' : Char).utf8Size = 1 := by decide
    simp [Piece.written, size_placeholderStart, brace]
    omega
  have isName := own.left.right.slice?
  have isBefore := lead.slice?
  have isOwn := own.slice?
  have isRest : sliceFrom? (size before + 3 + size name) text = some after := by
    have slice := Text.sliceFrom?_append (before ++ (Piece.placeholder name).written) after
    rwa [Text.size_append, sizeOwn, ← Nat.add_assoc, List.append_assoc,
      show before ++ ((Piece.placeholder name).written ++ after) = text by
        simp [whole, Piece.written]] at slice
  rw [size_placeholderStart] at isName
  rw [Nat.zero_add] at isBefore
  rw [sizeOwn, ← Nat.add_assoc] at isOwn
  simp only [round?, start, behind, stop, isName, isBefore, isOwn, isRest, Option.bind_eq_bind,
    Option.bind_some]
  cases value : value? (String.ofList name) with
  | none => simp [Piece.fill, value]
  | some text => simp [Piece.fill, value]

theorem Searches.unique {other : List Char} (searches : Searches value? text out)
    (again : Searches value? text other) : out = other := by
  induction searches generalizing other with
  | finished round =>
    cases again with
    | finished => rfl
    | turned turned => cases round.symm.trans turned
  | turned round _ inductionHypothesis =>
    cases again with
    | finished again => cases round.symm.trans again
    | turned turned further =>
      cases round.symm.trans turned
      rw [inductionHypothesis further]

/-- The search comes to its end and writes the pieces with their placeholders filled. -/
theorem Splits.searches {parts : List Piece} (splits : Splits text parts) :
    Searches value? text (parts.flatMap (Piece.fill value?)) := by
  induction splits with
  | rest unclosed => simpa [Piece.fill] using Searches.finished (round?_of_unclosed unclosed)
  | placeholder whole first nearest _ inductionHypothesis =>
    simpa [Piece.fill] using
      Searches.turned (round?_of_placeholder whole first nearest) inductionHypothesis

namespace Project

/-- Filling is single pass. A text is split in one way into pieces that are the text again. Each
placeholder that has a value is replaced by it, and all else stays as it was written, so nothing
changes if no placeholder has a value. The search by byte offsets comes to its end without cutting a
character, and writes the same and nothing else. -/
theorem fill_singlePass (project : Project) (workspace : Workspace) (files : FileTree)
    (raw : String) :
    ∃ parts, (∀ others, Splits raw.toList others ↔ others = parts) ∧
      parts.flatMap Piece.written = raw.toList ∧
      (project.fill workspace files raw).toList =
        parts.flatMap (Piece.fill (project.resolveProperty? workspace files)) ∧
      ((∀ name, .placeholder name ∈ parts →
          project.resolveProperty? workspace files (String.ofList name) = none) →
        project.fill workspace files raw = raw) ∧
      ∀ out, Searches (project.resolveProperty? workspace files) raw.toList out ↔
        out = (project.fill workspace files raw).toList := by
  have splits := splits_pieces raw.toList
  have filled : (project.fill workspace files raw).toList = (pieces raw.toList).flatMap
      (Piece.fill (project.resolveProperty? workspace files)) := by
    rw [fill, String.toList_ofList]
  refine ⟨pieces raw.toList, fun _ => splits_iff, splits.flatMap_written, filled, ?_, ?_⟩
  · intro unresolved
    rw [← String.toList_inj, filled, flatMap_fill_of_unresolved unresolved, splits.flatMap_written]
  · rw [filled]
    exact fun out => ⟨fun searches => searches.unique splits.searches,
      fun same => same ▸ splits.searches⟩

end Project

end PomLens
