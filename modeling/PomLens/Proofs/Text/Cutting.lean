/-
This file says what is left of a text that is trimmed, and where it is cut.
-/

import Mathlib.Data.List.TakeWhile
import PomLens.Text.Blank

namespace PomLens.Text

/-! ### Trimming -/

/-- The last character that is kept is none of those that are dropped. -/
theorem drop_getLast?_dropEndWhile {drop : Char → Bool} {text : List Char} {last : Char}
    (isLast : (dropEndWhile drop text).getLast? = some last) : drop last = false := by
  rw [dropEndWhile, List.getLast?_reverse] at isLast
  have kept := List.head?_dropWhile_not drop text.reverse
  rw [isLast] at kept
  simpa using kept

/-- What is dropped from the end is all to be dropped. -/
theorem exists_eq_dropEndWhile_append (drop : Char → Bool) (text : List Char) :
    ∃ dropped, text = dropEndWhile drop text ++ dropped ∧ dropped.all drop := by
  refine ⟨(text.reverse.takeWhile drop).reverse, ?_, ?_⟩
  · rw [dropEndWhile, ← List.reverse_append, List.takeWhile_append_dropWhile,
      List.reverse_reverse]
  · rw [List.all_reverse, List.all_eq_true]
    exact fun char member => List.mem_takeWhile_imp member

/-- The first character that is left of a trimmed text is not blank. -/
theorem not_blank_head?_trim {text : List Char} {first : Char}
    (isFirst : (trim text).head? = some first) : isBlank first = false := by
  obtain ⟨dropped, whole⟩ := dropEndWhile_beginning isBlank (trimStart text)
  have kept := List.head?_dropWhile_not isBlank text
  rw [← trimStart, ← whole, List.head?_append, ← trimEnd, ← trim, isFirst] at kept
  simpa using kept

theorem not_blank_getLast?_trim {text : List Char} {last : Char}
    (isLast : (trim text).getLast? = some last) : isBlank last = false :=
  drop_getLast?_dropEndWhile isLast

/-- A text of which trimming leaves nothing is blank. -/
theorem blank_of_trim_eq_nil {text : List Char} (nothing : trim text = []) :
    blank text = true := by
  rw [trim, trimEnd, trimStart, dropEndWhile, List.reverse_eq_nil_iff,
    List.dropWhile_eq_nil_iff] at nothing
  rw [blank, List.all_eq_true]
  intro char member
  rw [← List.takeWhile_append_dropWhile (p := isBlank) (l := text), List.mem_append] at member
  rcases member with front | back
  · exact List.mem_takeWhile_imp front
  · exact nothing char (List.mem_reverse.mpr back)

theorem trim_eq_nil_iff {text : List Char} : trim text = [] ↔ blank text = true := by
  refine ⟨blank_of_trim_eq_nil, fun blanks => ?_⟩
  rw [trim, trimStart, List.dropWhile_eq_nil_iff.mpr (List.all_eq_true.mp blanks)]
  rfl

/-- Something is left behind a mark that ends with a blank, if the whole does not. -/
theorem trim_ne_nil_of_append (mark : List Char) {rest : List Char} {gap : Char}
    (spaced : mark.getLast? = some gap) (isGap : isBlank gap = true)
    (ends : ∀ last, (mark ++ rest).getLast? = some last → isBlank last = false) :
    trim rest ≠ [] := by
  intro nothing
  have blanks := blank_of_trim_eq_nil nothing
  rw [blank, List.all_eq_true] at blanks
  rw [List.getLast?_append] at ends
  cases isLast : rest.getLast? with
  | none =>
    have solid := ends gap (by rw [isLast, spaced]; rfl)
    rw [isGap] at solid
    cases solid
  | some last =>
    have solid := ends last (by rw [isLast]; rfl)
    rw [blanks last (List.mem_of_getLast? isLast)] at solid
    cases solid

theorem dropWhile_eq_self {drop : Char → Bool} {text : List Char}
    (begins : ∀ first, text.head? = some first → drop first = false) :
    text.dropWhile drop = text := by
  cases text with
  | nil => rfl
  | cons first rest => exact List.dropWhile_cons_of_neg (by simp [begins first rfl])

/-- Nothing is dropped from a text that ends with another character. -/
theorem dropEndWhile_eq_self {drop : Char → Bool} {text : List Char}
    (ends : ∀ last, text.getLast? = some last → drop last = false) :
    dropEndWhile drop text = text := by
  rw [dropEndWhile, dropWhile_eq_self, List.reverse_reverse]
  intro first isFirst
  rw [List.head?_reverse] at isFirst
  exact ends first isFirst

/-- All that is dropped may stand at the end. -/
theorem dropEndWhile_append {drop : Char → Bool} {tail : List Char}
    (dropped : ∀ char ∈ tail, drop char = true) (text : List Char) :
    dropEndWhile drop (text ++ tail) = dropEndWhile drop text := by
  rw [dropEndWhile, List.reverse_append, List.dropWhile_append_of_pos, dropEndWhile]
  exact fun char member => dropped char (List.mem_reverse.mp member)

theorem trim_eq_self {text : List Char}
    (begins : ∀ first, text.head? = some first → isBlank first = false)
    (ends : ∀ last, text.getLast? = some last → isBlank last = false) : trim text = text := by
  rw [trim, trimStart, dropWhile_eq_self begins]
  exact dropEndWhile_eq_self ends

theorem trim_trim (text : List Char) : trim (trim text) = trim text :=
  trim_eq_self (fun _ => not_blank_head?_trim) fun _ => not_blank_getLast?_trim

/-- Trimming cuts off the blanks at both ends. -/
theorem takeWhile_append_trim (text : List Char) :
    text.takeWhile isBlank ++
      (trim text ++ ((trimStart text).reverse.takeWhile isBlank).reverse) = text := by
  rw [trim, trimEnd, dropEndWhile, ← List.reverse_append, List.takeWhile_append_dropWhile,
    List.reverse_reverse, trimStart, List.takeWhile_append_dropWhile]

theorem exists_eq_append_trim (text : List Char) :
    ∃ lead tail, text = lead ++ (trim text ++ tail) :=
  ⟨_, _, (takeWhile_append_trim text).symm⟩

theorem blank_takeWhile (text : List Char) : blank (text.takeWhile isBlank) = true :=
  List.all_eq_true.mpr fun _ member => List.mem_takeWhile_imp member

theorem getLast?_append_of_ne_nil {back : List Char} (some : back ≠ []) (front : List Char) :
    (front ++ back).getLast? = back.getLast? := by
  rw [List.getLast?_append, Option.or_of_isSome (List.getLast?_isSome.mpr some)]

/-! ### Pieces -/

section

variable {separates : Char → Bool} {piece : List Char}

theorem splitOn_eq_singleton (free : ∀ char ∈ piece, separates char = false) :
    splitOn separates piece = [piece] := by
  induction piece with
  | nil => rfl
  | cons char rest inductionHypothesis =>
    rw [splitOn, inductionHypothesis fun other member => free other (List.mem_cons_of_mem _ member)]
    simp [free char List.mem_cons_self]

/-- The first piece ends at the first separator. -/
theorem splitOn_append (free : ∀ char ∈ piece, separates char = false) {separator : Char}
    (isSeparator : separates separator = true) (rest : List Char) :
    splitOn separates (piece ++ separator :: rest) = piece :: splitOn separates rest := by
  induction piece with
  | nil =>
    rw [List.nil_append, splitOn]
    cases others : splitOn separates rest with
    | nil => exact absurd others (splitOn_ne_nil _ _)
    | cons first others => simp [isSeparator]
  | cons char tail inductionHypothesis =>
    rw [List.cons_append, splitOn,
      inductionHypothesis fun other member => free other (List.mem_cons_of_mem _ member)]
    simp [free char List.mem_cons_self]

/-- The pieces on both sides of a separator are pieces of the whole. -/
theorem splitOn_append_cons {separator : Char} (isSeparator : separates separator = true)
    (text rest : List Char) : splitOn separates (text ++ separator :: rest) =
      splitOn separates text ++ splitOn separates rest := by
  induction text with
  | nil => exact splitOn_append (by simp) isSeparator rest
  | cons char text inductionHypothesis =>
    rw [List.cons_append, splitOn, inductionHypothesis, splitOn]
    cases others : splitOn separates text with
    | nil => exact absurd others (splitOn_ne_nil _ _)
    | cons first others =>
      simp only [List.cons_append]
      split <;> rfl

/-- A separator at the end leaves an empty piece there. -/
theorem splitOn_concat {separator : Char} (isSeparator : separates separator = true)
    (text : List Char) : splitOn separates (text ++ [separator]) =
      splitOn separates text ++ [[]] :=
  splitOn_append_cons isSeparator text []

/-- Pieces are found again between the separators that were put there. -/
theorem splitOn_intercalate {pieces : List (List Char)} (some : pieces ≠ [])
    (free : ∀ piece ∈ pieces, ∀ char ∈ piece, separates char = false) {separator : Char}
    (isSeparator : separates separator = true) :
    splitOn separates ([separator].intercalate pieces) = pieces := by
  induction pieces with
  | nil => exact absurd rfl some
  | cons first rest inductionHypothesis =>
    have freeFirst := free first List.mem_cons_self
    cases rest with
    | nil =>
      rw [List.intercalate_singleton]
      exact splitOn_eq_singleton freeFirst
    | cons second others =>
      rw [List.intercalate_cons_cons, List.append_assoc, List.singleton_append,
        splitOn_append freeFirst isSeparator, inductionHypothesis (List.cons_ne_nil _ _)
          fun piece member => free piece (List.mem_cons_of_mem _ member)]

theorem splitOnce?_append (free : ∀ char ∈ piece, separates char = false) {separator : Char}
    (isSeparator : separates separator = true) (rest : List Char) :
    splitOnce? separates (piece ++ separator :: rest) = some (piece, rest) := by
  have kept : ∀ char ∈ piece, (!separates char) = true := fun char member => by
    simp [free char member]
  rw [splitOnce?, List.dropWhile_append_of_pos kept, List.takeWhile_append_of_pos kept]
  simp [isSeparator]

theorem splitOnce?_eq_none (free : ∀ char ∈ piece, separates char = false) :
    splitOnce? separates piece = none := by
  have kept : ∀ char ∈ piece, (!separates char) = true := fun char member => by
    simp [free char member]
  rw [splitOnce?, List.dropWhile_eq_nil_iff.mpr kept]

/-- In front of the first separator there is none, and none at all if there is no first one. -/
theorem free_of_splitOnce? (separates : Char → Bool) (text : List Char) :
    ∀ char ∈ ((splitOnce? separates text).getD (text, [])).1, separates char = false := by
  rw [splitOnce?]
  split
  · next nothing =>
    intro char member
    simpa using List.dropWhile_eq_nil_iff.mp nothing char member
  · intro char member
    simpa using List.mem_takeWhile_imp member

/-- A piece holds no separator. -/
theorem free_of_mem_splitOn {text : List Char} (isPiece : piece ∈ splitOn separates text)
    (char : Char) (member : char ∈ piece) : separates char = false := by
  induction text generalizing piece with
  | nil =>
    rw [splitOn, List.mem_singleton] at isPiece
    rw [isPiece] at member
    cases member
  | cons first rest inductionHypothesis =>
    rw [splitOn] at isPiece
    split at isPiece
    · next nothing => exact absurd nothing (splitOn_ne_nil _ _)
    · next front others split =>
      rw [split] at inductionHypothesis
      split at isPiece
      · rcases List.mem_cons.mp isPiece with rfl | later
        · cases member
        · exact inductionHypothesis later member
      · next isFree =>
        rcases List.mem_cons.mp isPiece with rfl | later
        · rcases List.mem_cons.mp member with rfl | inFront
          · simpa using isFree
          · exact inductionHypothesis List.mem_cons_self inFront
        · exact inductionHypothesis (List.mem_cons_of_mem _ later) member

/-- A piece holds only what is in the text. -/
theorem mem_of_mem_splitOn {text : List Char} (isPiece : piece ∈ splitOn separates text)
    {char : Char} (member : char ∈ piece) : char ∈ text := by
  induction text generalizing piece with
  | nil =>
    rw [splitOn, List.mem_singleton] at isPiece
    rwa [isPiece] at member
  | cons first rest inductionHypothesis =>
    rw [splitOn] at isPiece
    split at isPiece
    · next nothing => exact absurd nothing (splitOn_ne_nil _ _)
    · next front others split =>
      have inRest (other : List Char) (isOther : other ∈ front :: others) (inOther : char ∈ other) :
          char ∈ first :: rest :=
        List.mem_cons_of_mem _ (inductionHypothesis (split ▸ isOther) inOther)
      split at isPiece
      · rcases List.mem_cons.mp isPiece with rfl | later
        · cases member
        · exact inRest piece later member
      · rcases List.mem_cons.mp isPiece with rfl | later
        · rcases List.mem_cons.mp member with rfl | inFront
          · exact List.mem_cons_self
          · exact inRest front List.mem_cons_self inFront
        · exact inRest piece (List.mem_cons_of_mem _ later) member

end

/-- What is put together of pieces holds nothing else. -/
theorem mem_of_mem_intercalate {separator : List Char} {pieces : List (List Char)} {char : Char}
    (member : char ∈ separator.intercalate pieces) :
    char ∈ separator ∨ ∃ piece ∈ pieces, char ∈ piece := by
  induction pieces with
  | nil => cases member
  | cons first rest inductionHypothesis =>
    cases rest with
    | nil =>
      rw [List.intercalate_singleton] at member
      exact Or.inr ⟨first, List.mem_cons_self, member⟩
    | cons second others =>
      rw [List.intercalate_cons_cons, List.append_assoc, List.mem_append, List.mem_append] at member
      rcases member with here | between | further
      · exact Or.inr ⟨first, List.mem_cons_self, here⟩
      · exact Or.inl between
      · refine (inductionHypothesis further).imp id ?_
        rintro ⟨piece, isPiece, inPiece⟩
        exact ⟨piece, List.mem_cons_of_mem _ isPiece, inPiece⟩

/-- A mark does not occur in a text if it occurs neither at its start nor behind its first
character. -/
theorem splitAtText?_cons_eq_none {mark : List Char} {char : Char} {rest : List Char} :
    splitAtText? mark (char :: rest) = none ↔
      afterPrefix? mark (char :: rest) = none ∧ splitAtText? mark rest = none := by
  rw [splitAtText?]
  cases afterPrefix? mark (char :: rest) with
  | none => simp
  | some after => simp

theorem splitAtText?_eq_none {mark text : List Char} (absent : ¬ mark <:+: text) :
    splitAtText? mark text = none := by
  have marked : mark ≠ [] := fun empty => absent (empty ▸ List.nil_infix)
  induction text with
  | nil => simp [splitAtText?, marked]
  | cons char rest inductionHypothesis =>
    refine splitAtText?_cons_eq_none.mpr ⟨?_, inductionHypothesis fun within =>
      absent (List.infix_cons within)⟩
    refine Option.eq_none_iff_forall_ne_some.mpr fun after starts => absent ?_
    rw [afterPrefix?_eq_some_iff.mp starts]
    exact (List.prefix_append mark after).isInfix

/-- A text in which a mark does not occur is one piece. -/
theorem splitOnText_eq_singleton {mark text : List Char} (absent : splitAtText? mark text = none) :
    splitOnText mark text = [text] := by
  rw [splitOnText]
  split
  · rfl
  · split
    · rfl
    · next found => rw [absent] at found; cases found

/-! ### Lines -/

/-- A text that can be a line: it holds no line break and does not end with half of one, and is
not empty, so that it is not lost at the end of the text. -/
structure IsLine (row : List Char) : Prop where
  nonempty : row ≠ []
  unbroken : '\n' ∉ row
  ends : row.getLast? ≠ some '\r'

/-- The text with these lines, each with its ending. -/
def unlines (rows : List (List Char)) : List Char :=
  rows.flatMap fun row => row ++ ['\n']

theorem splitOn_unlines {rows : List (List Char)} (unbroken : ∀ row ∈ rows, '\n' ∉ row) :
    splitOn (· == '\n') (unlines rows) = rows ++ [[]] := by
  induction rows with
  | nil => rfl
  | cons row rest inductionHypothesis =>
    have free : ∀ char ∈ row, (char == '\n') = false := by
      intro char member
      rw [beq_eq_false_iff_ne]
      rintro rfl
      exact unbroken row List.mem_cons_self member
    rw [unlines, List.flatMap_cons, List.append_assoc, List.singleton_append,
      splitOn_append free (by rfl)]
    exact congrArg (row :: ·)
      (inductionHypothesis fun other member => unbroken other (List.mem_cons_of_mem _ member))

/-- A line without the carriage return that belongs to its ending. -/
def endedLine (row : List Char) : List Char :=
  if row.getLast? = some '\r' then row.dropLast else row

theorem lines_unlines {rows : List (List Char)} (unbroken : ∀ row ∈ rows, '\n' ∉ row) :
    lines (unlines rows) = rows.map endedLine := by
  rw [lines, splitOn_unlines unbroken, List.dropLast_concat, List.getLast?_concat]
  rfl

/-- The first lines of a text, with their endings. -/
def firstLines (count : Nat) (text : List Char) : List Char :=
  let pieces := splitOn (· == '\n') text
  if count < pieces.length then unlines (pieces.take count) else text

/-- What stands between line feeds has none. -/
theorem unbroken_of_mem_splitOn {text row : List Char} (member : row ∈ splitOn (· == '\n') text) :
    '\n' ∉ row :=
  fun inRow => by simpa using free_of_mem_splitOn member '\n' inRow

/-- A text is divided at its line feeds into lines, and what is behind the last one is a line if it
is anything. -/
theorem exists_lines_eq (text : List Char) : ∃ ended last,
    splitOn (· == '\n') text = ended ++ [last] ∧
      lines text = ended.map endedLine ++ if last = [] then [] else [last] := by
  obtain ⟨ended, last, pieces⟩ : ∃ ended last, splitOn (· == '\n') text = ended ++ [last] :=
    ⟨_, _, (List.dropLast_concat_getLast (splitOn_ne_nil _ _)).symm⟩
  refine ⟨ended, last, pieces, ?_⟩
  rw [lines, pieces, List.dropLast_concat, List.getLast?_concat]
  cases last with
  | nil => simp [endedLine]
  | cons first rest => simp [endedLine]

theorem mem_of_mem_endedLine {row : List Char} {char : Char} (member : char ∈ endedLine row) :
    char ∈ row := by
  rw [endedLine] at member
  split at member
  · exact List.dropLast_subset row member
  · exact member

theorem unbroken_of_mem_lines {text row : List Char} (member : row ∈ lines text) : '\n' ∉ row := by
  obtain ⟨ended, last, pieces, whole⟩ := exists_lines_eq text
  rw [whole, List.mem_append] at member
  rcases member with inFront | atEnd
  · obtain ⟨piece, isPiece, rfl⟩ := List.mem_map.mp inFront
    exact fun inRow => unbroken_of_mem_splitOn (pieces ▸ List.mem_append_left _ isPiece)
      (mem_of_mem_endedLine inRow)
  · split at atEnd
    · cases atEnd
    · rw [List.mem_singleton.mp atEnd]
      exact unbroken_of_mem_splitOn (pieces ▸ List.mem_append_right _ List.mem_cons_self)

theorem lines_firstLines (count : Nat) (text : List Char) :
    lines (firstLines count text) = (lines text).take count := by
  obtain ⟨ended, last, pieces, whole⟩ := exists_lines_eq text
  rw [firstLines, pieces, List.length_append, List.length_singleton]
  by_cases isShort : count < ended.length + 1
  · have unbroken : ∀ row ∈ (ended ++ [last]).take count, '\n' ∉ row := fun row member =>
      unbroken_of_mem_splitOn (pieces ▸ List.mem_of_mem_take member)
    rw [if_pos isShort, lines_unlines unbroken, whole,
      List.take_append_of_le_length (Nat.le_of_lt_succ isShort),
      List.take_append_of_le_length (by simpa using Nat.le_of_lt_succ isShort), List.map_take]
  · rw [if_neg isShort, List.take_of_length_le]
    rw [whole, List.length_append, List.length_map]
    split <;> simp <;> omega

/-- The lines of a text are read back, whether or not the last of them is ended. -/
theorem lines_eq {text : List Char} {rows : List (List Char)} (isLine : ∀ row ∈ rows, IsLine row)
    (whole : text = unlines rows ∨ text ++ ['\n'] = unlines rows) : lines text = rows := by
  have kept {ended : List (List Char)} (members : ∀ row ∈ ended, row ∈ rows) :
      (ended.map fun row => if row.getLast? = some '\r' then row.dropLast else row) = ended := by
    have same : ∀ row ∈ ended,
        (if row.getLast? = some '\r' then row.dropLast else row) = id row := fun row member =>
      if_neg (isLine row (members row member)).ends
    rw [List.map_congr_left same, List.map_id]
  have pieces := splitOn_unlines fun row member => (isLine row member).unbroken
  rcases whole with rfl | unended
  · rw [lines, pieces, List.dropLast_concat, List.getLast?_concat]
    exact kept fun row member => member
  · rw [← unended, splitOn_concat (by rfl), List.append_left_inj] at pieces
    rw [lines, pieces]
    rcases List.eq_nil_or_concat rows with rfl | ⟨ended, last, rfl⟩
    · exact absurd pieces (splitOn_ne_nil _ _)
    · have isLast := isLine last (by simp)
      simp only [List.concat_eq_append, List.dropLast_concat, List.getLast?_concat]
      rw [kept fun row member => by simp [member]]
      cases last with
      | nil => exact absurd rfl isLast.nonempty
      | cons first others => rfl

end PomLens.Text
