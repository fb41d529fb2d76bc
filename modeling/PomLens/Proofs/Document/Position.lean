/-
This file proves that a boundary of a text and its position determine each other.

A boundary divides one line of the text, and its position is that line's number and what the part
of the line in front of it takes in UTF-16 units (`positionAt_eq`). The way back cuts the line's
ending off before it counts. A boundary is lost by that only inside the ending, which is where a
carriage return and a line feed are one (`offsetAt_positionAt_cases`). Spans that have no end there
are found again by their positions (`spanOf_rangeOf`).
-/

import Mathlib.Data.Prod.Lex
import Mathlib.Order.Monotone.Defs
import PomLens.Document
import PomLens.Proofs.Text.Breaks

namespace PomLens

open Text

/-- Positions are in order by line, then by column. -/
def Position.key (position : Position) : ℕ ×ₗ ℕ :=
  toLex (position.line, position.character)

theorem Position.key_lt_key {first second : Position} :
    first.key < second.key ↔ first.line < second.line ∨
      first.line = second.line ∧ first.character < second.character :=
  Prod.Lex.lt_iff

/-- The offset lies between a carriage return and the line feed after it. -/
def Text.InReturnFeed (text : List Char) (offset : Nat) : Prop :=
  ∃ front back, text = front ++ '\r' :: '\n' :: back ∧ offset = size (front ++ ['\r'])

namespace Text

/-- Whether a boundary lies there is seen from the two characters that it lies between. -/
theorem inReturnFeed_iff {before after : List Char} :
    InReturnFeed (before ++ after) (size before) ↔
      before.getLast? = some '\r' ∧ after.head? = some '\n' := by
  constructor
  · rintro ⟨front, back, same, place⟩
    have cut : cut? (size before) (before ++ after) = some (front ++ ['\r'], '\n' :: back) :=
      cut?_eq_some_iff.mpr ⟨by simpa using same, place.symm⟩
    rw [cut?_eq_some_iff.mpr ⟨rfl, rfl⟩, Option.some.injEq, Prod.mk.injEq] at cut
    rw [cut.1, cut.2]
    simp
  · rintro ⟨isReturn, isFeed⟩
    obtain ⟨front, rfl⟩ := List.getLast?_eq_some_iff.mp isReturn
    obtain ⟨back, rfl⟩ := List.head?_eq_some_iff.mp isFeed
    exact ⟨front, back, by simp, rfl⟩

variable {text head tail : List Char} {offset : Nat} {done rest : List (List Char)}

theorem Divides.whole (divides : Divides text offset done head tail rest) :
    text = (done.flatten ++ head) ++ (tail ++ rest.flatten) := by
  rw [← flatten_brokenLines text, divides.lines]
  simp

theorem units_pos {text : List Char} (some : text ≠ []) : 0 < units text := by
  cases text with
  | nil => exact absurd rfl some
  | cons char rest =>
    rw [units]
    exact Nat.add_pos_left (charUnits_pos char) _

/-- Between a carriage return and a line feed, a line is divided in its ending. -/
theorem InReturnFeed.exists_divides {front back : List Char} :
    ∃ done head rest, Divides (front ++ '\r' :: '\n' :: back) (size (front ++ ['\r']))
      done (head ++ ['\r']) ['\n'] rest ∧ front = done.flatten ++ head ∧
      withoutReturns (head ++ ['\r', '\n']) = head := by
  have whole := flatten_brokenLines (front ++ '\r' :: '\n' :: back)
  obtain ⟨done, head, tail, rest, lines, rfl, inside⟩ :=
    exists_division (brokenLines_ne_nil _) whole
  rw [lines] at whole
  have behind : tail ++ rest.flatten = '\r' :: '\n' :: back := by simpa using whole
  cases tail with
  | nil =>
    rw [inside rfl] at behind
    cases behind
  | cons first tail =>
    rw [List.cons_append, List.cons.injEq] at behind
    obtain ⟨rfl, behind⟩ := behind
    have joined := mt (breaksLine_iff lines rfl).mpr (by rw [behind]; simp [breaksLine_return])
    cases tail with
    | nil =>
      -- A line that ends with the return alone would be the last one.
      obtain rfl : rest = [] := by simpa using joined
      cases behind
    | cons second tail =>
      rw [List.cons_append, List.cons.injEq] at behind
      obtain ⟨rfl, -⟩ := behind
      have feed : head ++ '\r' :: '\n' :: tail = (head ++ ['\r']) ++ '\n' :: tail := by simp
      obtain ⟨rfl, -⟩ := (breaksLine_iff lines feed).mp (breaksLine_feed _)
      refine ⟨done, head, rest, ⟨by simpa using lines, by simp, by simp⟩, rfl, ?_⟩
      rw [withoutReturns_eq, dropEndWhile_append (by simp [isReturn]), dropEndWhile_eq_self]
      intro last isLast
      obtain ⟨front, rfl⟩ := List.getLast?_eq_some_iff.mp isLast
      -- A return or a feed in front of the return would break the line.
      have inFront : front ++ [last] ++ ['\r', '\n'] = front ++ last :: ['\r', '\n'] := by simp
      have unbroken := mt (breaksLine_iff lines inFront).mp (by simp)
      rw [isReturn, Bool.or_eq_false_iff, beq_eq_false_iff_ne, beq_eq_false_iff_ne]
      constructor <;> rintro rfl
      · exact unbroken (breaksLine_feed _)
      · exact unbroken (breaksLine_return.mpr (by simp))

/-- Of two boundaries, the later one divides a later line, or the same line later. -/
theorem Divides.lt {head' tail' : List Char} {offset' : Nat} {done' rest' : List (List Char)}
    (divides : Divides text offset done head tail rest)
    (divides' : Divides text offset' done' head' tail' rest') (earlier : offset < offset') :
    done.length < done'.length ∨ done.length = done'.length ∧ units head < units head' := by
  have same := divides.lines.symm.trans divides'.lines
  have start := divides.offset
  have start' := divides'.offset
  have inOneLine (sameDone : done = done') (line : head ++ tail = head' ++ tail') :
      done.length = done'.length ∧ units head < units head' := by
    subst sameDone
    obtain ⟨between, rfl, -⟩ := exists_between line (by omega)
    have some : between ≠ [] := by
      rintro rfl
      rw [List.append_nil] at start'
      omega
    have := units_pos some
    exact ⟨rfl, by rw [units_append]; omega⟩
  rcases List.append_eq_append_iff.mp same with ⟨more, rfl, lines⟩ | ⟨more, rfl, lines⟩
  · cases more with
    | nil =>
      rw [List.nil_append, List.cons.injEq] at lines
      exact Or.inr (inOneLine (by simp) lines.1)
    | cons line more => simp
  · cases more with
    | nil =>
      rw [List.nil_append, List.cons.injEq] at lines
      exact Or.inr (inOneLine (by simp) lines.1.symm)
    | cons line more =>
      -- The earlier boundary cannot stand behind the whole line of the later one.
      rw [List.cons_append, List.cons.injEq] at lines
      rw [← lines.1] at start
      simp only [List.flatten_append, List.flatten_cons, size_append] at start
      omega

end Text

namespace Document

variable {document : Document} {head tail : List Char} {offset : Nat} {done rest : List (List Char)}

/-- The position in some lines, counted from `line` on. -/
theorem positionIn_eq (line : Nat) (inside : tail = [] → rest = []) :
    positionIn line (size done.flatten + size head) (done ++ (head ++ tail) :: rest) =
      ⟨line + done.length, units head⟩ := by
  induction done generalizing line with
  | nil =>
    rw [List.flatten_nil, size_nil, Nat.zero_add, List.nil_append]
    cases rest with
    | nil => rw [positionIn, takeBytes_append, List.length_nil, Nat.add_zero]
    | cons next rest =>
      have inLine : size head < size (head ++ tail) := by
        have : size tail ≠ 0 := mt (fun none => inside (size_eq_zero_iff.mp none)) (by simp)
        rw [size_append]
        omega
      rw [positionIn, if_pos inLine, takeBytes_append, List.length_nil, Nat.add_zero]
  | cons first done inductionHypothesis =>
    obtain ⟨next, others, more⟩ :
        ∃ next others, done ++ (head ++ tail) :: rest = next :: others :=
      List.exists_cons_of_ne_nil (by simp)
    have behind : size (first :: done).flatten + size head - size first =
        size done.flatten + size head := by
      rw [List.flatten_cons, size_append]
      omega
    rw [List.cons_append, more, positionIn, if_neg (by rw [List.flatten_cons, size_append]; omega),
      behind, ← more, inductionHypothesis, List.length_cons]
    simp [Nat.add_comm, Nat.add_left_comm]

/-- A boundary's position is the number of lines in front of it, and what its own line has in front
of it. -/
theorem positionAt_eq (divides : Divides document.chars offset done head tail rest) :
    document.positionAt offset = ⟨done.length, units head⟩ := by
  rw [positionAt, divides.lines, ← divides.offset, positionIn_eq 0 divides.inside, Nat.zero_add]

theorem offsetAt_eq (divides : Divides document.chars offset done head tail rest) (column : Nat) :
    document.offsetAt ⟨done.length, column⟩ =
      size done.flatten + size (takeUnits column (withoutReturns (head ++ tail))) := by
  have isLine : (brokenLines document.chars)[done.length]? = some (head ++ tail) := by
    rw [divides.lines]
    simp
  have inFront : (brokenLines document.chars).take done.length = done := by
    rw [divides.lines]
    simp
  simp only [offsetAt, isLine, inFront]

/-- A boundary is found again, unless it lies between a carriage return and a line feed. -/
theorem offsetAt_positionAt_cases
    (boundary : isBoundary document.chars offset = true) :
    document.offsetAt (document.positionAt offset) = offset ∨
      InReturnFeed document.chars offset := by
  obtain ⟨done, head, tail, rest, divides⟩ := Text.exists_divides boundary
  rw [positionAt_eq divides, offsetAt_eq divides]
  obtain ⟨returns, line, ending⟩ := exists_returns divides.lines
  rcases List.append_eq_append_iff.mp line with ⟨kept, content, -⟩ | ⟨cut, content, rfl⟩
  · rw [content, takeUnits_append]
    exact Or.inl divides.offset
  · have whole : takeUnits (units head) (withoutReturns (head ++ tail)) =
        withoutReturns (head ++ tail) := by
      refine takeUnits_of_le ?_
      conv_rhs => rw [content]
      rw [units_append]
      omega
    by_cases nothing : cut = []
    · rw [nothing, List.append_nil] at content
      rw [whole, ← content]
      exact Or.inl divides.offset
    · -- Part of the ending is in front of the boundary and part of it behind.
      obtain ⟨more, one | one | two⟩ := ending.resolve_left (by simp [nothing])
      · rcases List.append_eq_singleton_iff.mp one with ⟨none, -⟩ | ⟨-, none⟩
        · exact absurd none nothing
        · exact absurd (divides.inside none) more
      · rcases List.append_eq_singleton_iff.mp one with ⟨none, -⟩ | ⟨-, none⟩
        · exact absurd none nothing
        · exact absurd (divides.inside none) more
      · have tailSome : tail ≠ [] := fun none => more (divides.inside none)
        obtain ⟨rfl, rfl⟩ : cut = ['\r'] ∧ tail = ['\n'] := by
          cases cut with
          | nil => exact absurd rfl nothing
          | cons first cut =>
            rw [List.cons_append, List.cons.injEq] at two
            rcases List.append_eq_singleton_iff.mp two.2 with ⟨rfl, rfl⟩ | ⟨-, none⟩
            · exact ⟨by rw [two.1], rfl⟩
            · exact absurd none tailSome
        refine Or.inr ⟨done.flatten ++ withoutReturns (head ++ ['\n']), rest.flatten, ?_, ?_⟩
        · rw [divides.whole]
          conv_lhs => rw [content]
          simp
        · rw [← divides.offset]
          conv_lhs => rw [content]
          simp

/-- A place between a carriage return and a line feed becomes the one in front of both. -/
theorem offsetAt_positionAt_returnFeed {front back : List Char}
    (split : document.chars = front ++ '\r' :: '\n' :: back) :
    document.offsetAt (document.positionAt (size (front ++ ['\r']))) = size front := by
  obtain ⟨done, head, rest, divides, rfl, content⟩ :=
    @InReturnFeed.exists_divides front back
  rw [← split] at divides
  rw [positionAt_eq divides, offsetAt_eq divides, List.append_assoc, List.singleton_append, content,
    takeUnits_of_le (by rw [units_append]; omega), size_append]

/-- The position of an offset inside a character is that of the character. -/
theorem positionIn_takeBytes (line offset : Nat) (lines : List (List Char)) :
    positionIn line (size (takeBytes offset lines.flatten)) lines = positionIn line offset lines := by
  induction lines generalizing line offset with
  | nil => rfl
  | cons first rest inductionHypothesis =>
    cases rest with
    | nil =>
      simp only [positionIn, List.flatten_cons, List.flatten_nil, List.append_nil,
        takeBytes_size_takeBytes]
    | cons next others =>
      rw [List.flatten_cons]
      by_cases inside : offset < size first
      · have shorter := size_takeBytes_le offset first
        rw [takeBytes_append_of_lt _ inside, positionIn, if_pos (by omega), positionIn,
          if_pos inside, takeBytes_size_takeBytes]
      · rw [takeBytes_append_of_le _ (by omega), size_append, positionIn, if_neg (by omega),
          positionIn, if_neg inside, Nat.add_sub_cancel_left, inductionHypothesis]

/-- The way to a position and back leads to a place that is at most a character further in
front. -/
theorem offsetAt_positionAt_near {document : Document} {offset : Nat}
    (inText : offset ≤ size document.chars) :
    document.offsetAt (document.positionAt offset) ≤ offset ∧
      offset ≤ document.offsetAt (document.positionAt offset) + 3 := by
  obtain ⟨before, after, whole, taken, near⟩ := exists_takeBytes inText
  have samePosition : document.positionAt offset = document.positionAt (size before) := by
    have back := positionIn_takeBytes 0 offset (brokenLines document.chars)
    rw [flatten_brokenLines, taken] at back
    exact back.symm
  have boundary : isBoundary document.chars (size before) = true := by
    rw [isBoundary, cut?_eq_some_iff.mpr ⟨whole, rfl⟩]
    rfl
  rw [samePosition]
  rcases offsetAt_positionAt_cases boundary with found | between
  · rw [found]
    rcases near with same | ⟨char, rest, -, later, inside⟩
    · omega
    · have := char.utf8Size_le_four
      omega
  · -- The next character is a line feed, so the offset was not inside it.
    obtain ⟨front, back, split, place⟩ := id between
    rw [whole, inReturnFeed_iff] at between
    have same : size before = offset := by
      rcases near with same | ⟨char, rest, isNext, later, inside⟩
      · exact same
      · obtain rfl : char = '\n' := by simpa [isNext] using between.2
        have width : '\n'.utf8Size = 1 := by decide
        omega
    have width : size ['\r'] = 1 := by decide
    rw [place, offsetAt_positionAt_returnFeed split, ← same, place, size_append, width]
    omega

/-- Boundaries are in the order of their positions. -/
theorem positionAt_strictMonoOn (document : Document) :
    StrictMonoOn (fun offset => (document.positionAt offset).key)
      {offset | isBoundary document.chars offset = true} := by
  intro first isFirst second isSecond earlier
  obtain ⟨done, head, tail, rest, divides⟩ := Text.exists_divides isFirst
  obtain ⟨done', head', tail', rest', divides'⟩ := Text.exists_divides isSecond
  simp only [positionAt_eq divides, positionAt_eq divides', Position.key_lt_key]
  exact divides.lt divides' earlier

/-- A boundary's position names a line that the text has, and a column that this line has. -/
theorem positionAt_inside (boundary : isBoundary document.chars offset = true) :
    ∃ line, (brokenLines document.chars)[(document.positionAt offset).line]? = some line ∧
      (document.positionAt offset).character ≤ units line := by
  obtain ⟨done, head, tail, rest, divides⟩ := Text.exists_divides boundary
  refine ⟨head ++ tail, ?_, ?_⟩
  · rw [positionAt_eq divides, divides.lines]
    simp
  · rw [positionAt_eq divides, units_append]
    exact Nat.le_add_right _ _

/-- Every boundary of a text has a position that the text has. The way back leads to the boundary,
unless it lies between a carriage return and a line feed: then it leads in front of both. Later
boundaries have later positions. -/
theorem offsetAt_positionAt (document : Document) :
    (∀ offset, isBoundary document.chars offset = true →
      (∃ line, (brokenLines document.chars)[(document.positionAt offset).line]? = some line ∧
        (document.positionAt offset).character ≤ units line) ∧
      (¬ InReturnFeed document.chars offset →
        document.offsetAt (document.positionAt offset) = offset)) ∧
    (∀ front back, document.chars = front ++ '\r' :: '\n' :: back →
      document.offsetAt (document.positionAt (size (front ++ ['\r']))) = size front) ∧
    StrictMonoOn (fun offset => (document.positionAt offset).key)
      {offset | isBoundary document.chars offset = true} := by
  refine ⟨fun offset boundary => ⟨positionAt_inside boundary, fun outside => ?_⟩,
    fun front back split => offsetAt_positionAt_returnFeed split, document.positionAt_strictMonoOn⟩
  exact (offsetAt_positionAt_cases boundary).resolve_right outside

/-- A text with two endings of lines, and a character that takes two units. -/
def lyric : Document :=
  ⟨⟨"/p/pom.xml"⟩, String.ofList (['a', '\r', '\n', '𝄞'] ++ ['b', '\u2028', '\r'])⟩

theorem offsetAt_positionAt_lyric :
    (lyric.positionAt 7 = ⟨1, 2⟩ ∧ lyric.offsetAt ⟨1, 2⟩ = 7) ∧
      (lyric.positionAt 2 = ⟨0, 2⟩ ∧ lyric.offsetAt ⟨0, 2⟩ = 1) ∧
      (lyric.positionAt 8).key < (lyric.positionAt 11).key := by
  obtain ⟨back, betweenBoth, increasing⟩ := offsetAt_positionAt lyric
  have inside : lyric.positionAt 7 = ⟨1, 2⟩ := by decide +kernel
  have between : lyric.positionAt 2 = ⟨0, 2⟩ := by decide +kernel
  have outside : ¬ InReturnFeed lyric.chars 7 := fun returnFeed =>
    absurd (@inReturnFeed_iff ['a', '\r', '\n', '𝄞'] _ |>.mp returnFeed) (by decide)
  refine ⟨⟨inside, ?_⟩, ⟨between, ?_⟩, increasing ?_ ?_ (by decide)⟩
  · rw [← inside]
    exact (back 7 (by decide +kernel)).2 outside
  · rw [← between]
    exact betweenBoth ['a'] ['𝄞', 'b', '\u2028', '\r'] (by decide +kernel)
  · rw [Set.mem_ofPred_eq]
    decide +kernel
  · rw [Set.mem_ofPred_eq]
    decide +kernel

end Document

/-! ### Places that are found again -/

namespace Text

/-- The offset lies between two characters that are not one ending of a line. -/
structure Rests (text : List Char) (offset : Nat) : Prop where
  boundary : isBoundary text offset = true
  outside : ¬ InReturnFeed text offset

theorem rests_of_append {before after : List Char}
    (apart : before.getLast? = some '\r' → after.head? ≠ some '\n') :
    Rests (before ++ after) (size before) := by
  refine ⟨?_, fun between => ?_⟩
  · rw [isBoundary, cut?_eq_some_iff.mpr ⟨rfl, rfl⟩]
    rfl
  · obtain ⟨isReturn, isFeed⟩ := inReturnFeed_iff.mp between
    exact apart isReturn isFeed

end Text

/-- Both ends of the span lie between characters that are not one ending of a line. -/
structure Span.Rests (text : List Char) (span : Span) : Prop where
  start : Text.Rests text span.start
  stop : Text.Rests text span.stop

/-- Such a span is found again by its positions. -/
theorem Document.spanOf_rangeOf {document : Document} {span : Span}
    (rests : span.Rests document.chars) : document.spanOf (document.rangeOf span) = span := by
  have start := (offsetAt_positionAt_cases rests.start.boundary).resolve_right rests.start.outside
  have stop := (offsetAt_positionAt_cases rests.stop.boundary).resolve_right rests.stop.outside
  rw [spanOf, rangeOf, start, stop]
  exact Span.ext rfl (Nat.max_eq_right span.ordered)

end PomLens
