/-
This file proves where the way from a position leads if its line does not have the column.

A column in the line stays, or moves in front of the character that it divides (`Lands`). One behind
the line moves to the line's end. The end that is meant is the one in front of the line's break, but
only carriage returns and line feeds are cut off the line for that. The other breaks stay on it, so
a column behind one of those leads to the start of the next line. Every other column leads to a
place on the line, in front of its break (`offsetAt_clamps`).
-/

import PomLens.Proofs.Document.Position

namespace PomLens

namespace Text

/-! ### Lines and their breaks -/

/-- The breaks besides a carriage return, a line feed and the two together. -/
def otherBreaks : List Char :=
  ['\x0b', '\x0c', '\u0085', '\u2028', '\u2029']

/-- The characters that breaks are made of. -/
def breakChars : List Char :=
  '\n' :: '\r' :: otherBreaks

/-- A line without its break. -/
def content (line : List Char) : List Char :=
  line.takeWhile (· ∉ breakChars)

/-- The line ends with one of the other breaks. -/
def EndsOtherwise (line : List Char) : Prop :=
  ∃ last ∈ line.getLast?, last ∈ otherBreaks

theorem mem_breakChars {char : Char} :
    char ∈ breakChars ↔ char = '\n' ∨ char = '\r' ∨ char ∈ otherBreaks := by
  simp [breakChars]

theorem mem_breakChars_of_breaksLine {char : Char} {rest : List Char}
    (breaks : breaksLine char rest = true) : char ∈ breakChars := by
  have byCode : char.toNat ∈ breakChars.map Char.toNat → char ∈ breakChars := by
    simp [breakChars, otherBreaks, ← Char.toNat_inj]
  refine byCode ?_
  unfold breaksLine at breaks
  split at breaks <;> simp_all [breakChars, otherBreaks]

/-- The other breaks end a line whatever follows. -/
theorem breaksLine_of_mem {char : Char} (other : char ∈ otherBreaks) (rest : List Char) :
    breaksLine char rest = true := by
  simp only [otherBreaks, List.mem_cons, List.not_mem_nil, or_false] at other
  rcases other with rfl | rfl | rfl | rfl | rfl <;> rfl

theorem charUnits_of_mem {char : Char} (other : char ∈ otherBreaks) : charUnits char = 1 := by
  simp only [otherBreaks, List.mem_cons, List.not_mem_nil, or_false] at other
  rcases other with rfl | rfl | rfl | rfl | rfl <;> rfl

theorem not_isReturn_of_mem {char : Char} (other : char ∈ otherBreaks) : isReturn char = false := by
  simp only [otherBreaks, List.mem_cons, List.not_mem_nil, or_false] at other
  rcases other with rfl | rfl | rfl | rfl | rfl <;> rfl

/-- Only the last line of a text is empty. -/
theorem eq_nil_of_brokenLines_append {text : List Char} {done rest : List (List Char)}
    (lines : brokenLines text = done ++ [] :: rest) : rest = [] := by
  induction text generalizing done with
  | nil =>
    rcases List.append_eq_singleton_iff.mp lines.symm with ⟨-, one⟩ | ⟨-, none⟩
    · exact (List.cons.inj one).2
    · cases none
  | cons char others inductionHypothesis =>
    rw [brokenLines] at lines
    split at lines
    · cases done with
      | nil => cases lines
      | cons first done => exact inductionHypothesis (List.cons.inj lines).2
    · split at lines
      · next none => exact absurd none (brokenLines_ne_nil others)
      · next line more broken =>
        cases done with
        | nil => cases lines
        | cons first done =>
          obtain rfl := (List.cons.inj lines).2
          exact @inductionHypothesis (line :: done) broken

section

variable {text line : List Char} {done rest : List (List Char)}
  (lines : brokenLines text = done ++ line :: rest)

include lines

/-- The place where a line starts. -/
theorem divides_start : Divides text (size done.flatten) done [] line rest :=
  ⟨lines, by simp, fun none => eq_nil_of_brokenLines_append (none ▸ lines)⟩

/-- What follows a line's content is its break, and the last line has none. -/
theorem exists_break :
    ∃ ending, line = content line ++ ending ∧
      (ending = [] ∧ rest = [] ∨ rest ≠ [] ∧
        (ending ∈ [['\n'], ['\r'], ['\r', '\n']] ∨ ∃ last ∈ otherBreaks, ending = [last])) := by
  refine ⟨line.dropWhile (· ∉ breakChars), List.takeWhile_append_dropWhile.symm, ?_⟩
  have split := (List.takeWhile_append_dropWhile (p := (· ∉ breakChars)) (l := line)).symm
  have begins := List.head?_dropWhile_not (· ∉ breakChars) line
  cases isEnding : line.dropWhile (· ∉ breakChars) with
  | nil =>
    refine Or.inl ⟨rfl, ?_⟩
    rcases List.eq_nil_or_concat line with rfl | ⟨front, last, rfl⟩
    · exact eq_nil_of_brokenLines_append lines
    · by_contra more
      have breaks := (breaksLine_iff lines (List.concat_eq_append : _ = front ++ [last])).mpr
        ⟨rfl, more⟩
      have isNone := List.dropWhile_eq_nil_iff.mp isEnding last (by simp)
      simp [mem_breakChars_of_breaksLine breaks] at isNone
  | cons first others =>
    rw [isEnding] at split begins
    have isBreak : first ∈ breakChars := by simpa using begins
    refine Or.inr ?_
    rcases mem_breakChars.mp isBreak with rfl | rfl | other
    · obtain ⟨rfl, more⟩ := (breaksLine_iff lines split).mp (breaksLine_feed _)
      exact ⟨more, Or.inl (by simp)⟩
    · obtain ⟨more, rfl | rfl⟩ := ending_of_return lines split
      · exact ⟨more, Or.inl (by simp)⟩
      · exact ⟨more, Or.inl (by simp)⟩
    · obtain ⟨rfl, more⟩ := (breaksLine_iff lines split).mp (breaksLine_of_mem other _)
      exact ⟨more, Or.inr ⟨first, other, rfl⟩⟩

/-- A line is cut off its break, unless that is one of the other breaks. -/
theorem withoutReturns_cases :
    (¬ EndsOtherwise line ∧ withoutReturns line = content line) ∨
      EndsOtherwise line ∧ withoutReturns line = line ∧ rest ≠ [] ∧
        units line = units (content line) + 1 := by
  obtain ⟨ending, whole, cases⟩ := exists_break lines
  have plain {char : Char} (member : char ∈ content line) : char ∉ breakChars := by
    simpa using List.mem_takeWhile_imp member
  generalize content line = kept at whole plain ⊢
  subst whole
  have keeps : dropEndWhile isReturn kept = kept := by
    refine dropEndWhile_eq_self fun last isLast => ?_
    have isPlain := plain (List.mem_of_getLast? isLast)
    rw [mem_breakChars, not_or, not_or] at isPlain
    simp [isReturn, isPlain.1, isPlain.2.1]
  rw [withoutReturns_eq]
  rcases cases with ⟨rfl, -⟩ | ⟨more, returns | ⟨last, other, rfl⟩⟩
  · rw [List.append_nil]
    refine Or.inl ⟨?_, keeps⟩
    rintro ⟨last, isLast, other⟩
    exact plain (List.mem_of_getLast? isLast) (mem_breakChars.mpr (Or.inr (Or.inr other)))
  · simp only [List.mem_cons, List.not_mem_nil, or_false] at returns
    refine Or.inl ⟨?_, ?_⟩
    · rintro ⟨last, isLast, other⟩
      rcases returns with rfl | rfl | rfl <;> simp at isLast <;> subst isLast <;>
        exact absurd other (by decide)
    · have dropped : ending.all isReturn = true := by rcases returns with rfl | rfl | rfl <;> rfl
      rw [dropEndWhile_append (List.all_eq_true.mp dropped), keeps]
  · refine Or.inr ⟨⟨last, by simp, other⟩, dropEndWhile_eq_self fun char isLast => ?_, more, ?_⟩
    · obtain rfl : last = char := by simpa using isLast
      exact not_isReturn_of_mem other
    · rw [units_append, units, units, charUnits_of_mem other]

end

/-! ### Columns -/

theorem charUnits_cases (char : Char) : charUnits char = 1 ∨ charUnits char = 2 := by
  rw [charUnits]
  split
  · exact Or.inl rfl
  · exact Or.inr rfl

/-- No character is divided by what is taken, or one that takes two units. -/
theorem exists_takeUnits (limit : Nat) (text : List Char) :
    ∃ after, text = takeUnits limit text ++ after ∧
      (after = [] ∧ units text ≤ limit ∨ units (takeUnits limit text) = limit ∨
        ∃ char rest, after = char :: rest ∧ charUnits char = 2 ∧
          units (takeUnits limit text) + 1 = limit) := by
  induction text generalizing limit with
  | nil => exact ⟨[], rfl, Or.inl ⟨rfl, Nat.zero_le _⟩⟩
  | cons char rest inductionHypothesis =>
    by_cases fits : charUnits char ≤ limit
    · obtain ⟨after, whole, cases⟩ := inductionHypothesis (limit - charUnits char)
      rw [takeUnits, if_pos fits]
      refine ⟨after, by rw [List.cons_append, ← whole], ?_⟩
      rw [units, units]
      rcases cases with ⟨none, enough⟩ | exactly | ⟨next, others, isNext, pair, before⟩
      · exact Or.inl ⟨none, by omega⟩
      · exact Or.inr (Or.inl (by omega))
      · exact Or.inr (Or.inr ⟨next, others, isNext, pair, by omega⟩)
    · rw [takeUnits, if_neg fits]
      refine ⟨char :: rest, rfl, Or.inr ?_⟩
      rcases charUnits_cases char with single | pair
      · exact Or.inl (by rw [units]; omega)
      · rcases Nat.eq_zero_or_pos limit with rfl | some
        · exact Or.inl rfl
        · exact Or.inr ⟨char, rest, rfl, pair, by rw [units]; omega⟩

theorem takeUnits_append_of_le {limit : Nat} {first : List Char} (rest : List Char)
    (enough : limit ≤ units first) : takeUnits limit (first ++ rest) = takeUnits limit first := by
  induction first generalizing limit with
  | nil =>
    obtain rfl := Nat.le_zero.mp enough
    exact takeUnits_append [] rest
  | cons char others inductionHypothesis =>
    rw [units] at enough
    rw [List.cons_append, takeUnits, takeUnits]
    split
    · rw [inductionHypothesis (by omega)]
    · rfl

/-- A column that is not behind one of the other breaks takes nothing of the break. -/
theorem takeUnits_withoutReturns {text line : List Char} {done rest : List (List Char)}
    (lines : brokenLines text = done ++ line :: rest) {column : Nat}
    (inFront : ¬ (EndsOtherwise line ∧ units (content line) < column)) :
    takeUnits column (withoutReturns line) = takeUnits column (content line) := by
  rcases withoutReturns_cases lines with ⟨-, cut⟩ | ⟨other, kept, -, -⟩
  · rw [cut]
  · obtain ⟨ending, whole, -⟩ := exists_break lines
    have fits : column ≤ units (content line) :=
      Nat.le_of_not_lt fun behind => inFront ⟨other, behind⟩
    calc takeUnits column (withoutReturns line)
        = takeUnits column (content line ++ ending) := by rw [kept, ← whole]
      _ = takeUnits column (content line) := takeUnits_append_of_le ending fits

/-- The column lies between the two units of a character. -/
def SplitsPair (text : List Char) (column : Nat) : Prop :=
  ∃ front pair back, text = front ++ pair :: back ∧ charUnits pair = 2 ∧ column = units front + 1

/-- A column becomes the last one of the text if it lies behind that, and then one less if it lies
between the two units of a character. -/
structure Lands (text : List Char) (column landed : Nat) : Prop where
  whole : ¬ SplitsPair text (min column (units text)) → landed = min column (units text)
  divided : SplitsPair text (min column (units text)) → landed + 1 = min column (units text)

/-- What stands in front of a place divides no character. -/
theorem not_splitsPair_units {text before after : List Char} (whole : text = before ++ after) :
    ¬ SplitsPair text (units before) := by
  rintro ⟨front, pair, back, split, two, column⟩
  rcases List.append_eq_append_iff.mp (whole.symm.trans split) with
    ⟨more, rfl, -⟩ | ⟨more, rfl, behind⟩
  · rw [units_append] at column
    omega
  · cases more with
    | nil =>
      rw [List.append_nil] at column
      omega
    | cons first more =>
      obtain ⟨rfl, -⟩ := List.cons.inj behind
      rw [units_append, units] at column
      omega

theorem lands_takeUnits (text : List Char) (column : Nat) :
    Lands text column (units (takeUnits column text)) := by
  obtain ⟨after, whole, cases⟩ := exists_takeUnits column text
  have width : units text = units (takeUnits column text) + units after := by
    rw [← units_append, ← whole]
  have undivided := not_splitsPair_units whole
  rcases cases with ⟨rfl, enough⟩ | exactly | ⟨pair, rest, rfl, two, before⟩
  · have reached : min column (units text) = units (takeUnits column text) := by
      rw [width, units] at enough ⊢
      omega
    rw [← reached] at undivided ⊢
    exact ⟨fun _ => rfl, fun divided => absurd divided undivided⟩
  · have reached : min column (units text) = units (takeUnits column text) := by omega
    rw [← reached] at undivided ⊢
    exact ⟨fun _ => rfl, fun divided => absurd divided undivided⟩
  · rw [units] at width
    have reached : min column (units text) = units (takeUnits column text) + 1 := by omega
    have divided : SplitsPair text (min column (units text)) :=
      ⟨takeUnits column text, pair, rest, whole, two, reached⟩
    exact ⟨fun whole => absurd divided whole, fun _ => reached.symm⟩

end Text

namespace Document

open Text

variable {document : Document} {line : List Char} {done rest : List (List Char)}

/-- The way from a position leads to a place on its line, in front of the break, and to the column
that the given one lands on. -/
structure Clamps (document : Document) (number column : Nat) (line : List Char) : Prop where
  start : size ((brokenLines document.chars).take number).flatten ≤
    document.offsetAt ⟨number, column⟩
  stop : document.offsetAt ⟨number, column⟩ ≤
    size ((brokenLines document.chars).take number).flatten + size (content line)
  position : ∃ landed, document.positionAt (document.offsetAt ⟨number, column⟩) = ⟨number, landed⟩ ∧
    Lands (content line) column landed

/-- The way leads behind the characters of the content that the column takes. -/
theorem clamps_of_takeUnits (lines : brokenLines document.chars = done ++ line :: rest)
    {column : Nat}
    (taken : takeUnits column (withoutReturns line) = takeUnits column (content line)) :
    document.Clamps done.length column line := by
  have offset := offsetAt_eq (divides_start lines) column
  obtain ⟨ending, whole, ends⟩ := exists_break lines
  obtain ⟨after, split, -⟩ := exists_takeUnits column (content line)
  rw [List.nil_append, taken] at offset
  have inFront : (brokenLines document.chars).take done.length = done := by simp [lines]
  have divides : Divides document.chars (document.offsetAt ⟨done.length, column⟩) done
      (takeUnits column (content line)) (after ++ ending) rest := by
    refine ⟨?_, offset.symm, fun none => ?_⟩
    · rw [← List.append_assoc, ← split, ← whole, lines]
    · rcases ends with ⟨-, last⟩ | ⟨-, some⟩
      · exact last
      · obtain ⟨-, rfl⟩ := List.append_eq_nil_iff.mp none
        simp at some
  have inside : size (content line) = size (takeUnits column (content line)) + size after := by
    rw [← size_append, ← split]
  refine ⟨?_, ?_, _, positionAt_eq divides, lands_takeUnits (content line) column⟩
  · rw [inFront, offset]
    omega
  · rw [inFront, offset]
    omega

/-- Where a line ends with one of the other breaks, a column behind its content leads behind the
line. -/
theorem offsetAt_of_endsOtherwise (lines : brokenLines document.chars = done ++ line :: rest)
    {column : Nat} (whole : withoutReturns line = line) (more : rest ≠ [])
    (behind : units line ≤ column) :
    document.offsetAt ⟨done.length, column⟩ = size (done ++ [line]).flatten ∧
      document.positionAt (size (done ++ [line]).flatten) = ⟨done.length + 1, 0⟩ := by
  obtain ⟨next, others, rfl⟩ := List.exists_cons_of_ne_nil more
  have nextLine : brokenLines document.chars = (done ++ [line]) ++ next :: others := by
    simp [lines]
  constructor
  · rw [offsetAt_eq (divides_start lines), List.nil_append, whole, takeUnits_of_le behind]
    simp
  · rw [positionAt_eq (divides_start nextLine), List.length_append]
    rfl

/-- A line number past the last line means the end of the text. On a line of the text the way from a
column leads to a place in front of the line's break, the last column there is taking the place of
those behind it. The exception are columns behind a line that ends with one of the other breaks,
which lead to the start of the next line. -/
theorem offsetAt_clamps (document : Document) (number column : Nat) :
    ((brokenLines document.chars).length ≤ number →
      document.offsetAt ⟨number, column⟩ = size document.chars) ∧
    ∀ line, (brokenLines document.chars)[number]? = some line →
      (¬ (EndsOtherwise line ∧ units (content line) < column) →
        document.Clamps number column line) ∧
      (EndsOtherwise line ∧ units (content line) < column →
        document.offsetAt ⟨number, column⟩ =
          size ((brokenLines document.chars).take (number + 1)).flatten ∧
        document.positionAt (document.offsetAt ⟨number, column⟩) = ⟨number + 1, 0⟩) := by
  refine ⟨fun past => ?_, fun line isLine => ?_⟩
  · simp [offsetAt, List.getElem?_eq_none past]
  · obtain ⟨inText, rfl⟩ := List.getElem?_eq_some_iff.mp isLine
    have lines : brokenLines document.chars = (brokenLines document.chars).take number ++
        (brokenLines document.chars)[number] :: (brokenLines document.chars).drop (number + 1) := by
      rw [← List.drop_eq_getElem_cons, List.take_append_drop]
    have upTo : (brokenLines document.chars).take (number + 1) =
        (brokenLines document.chars).take number ++ [(brokenLines document.chars)[number]] :=
      List.take_succ_eq_append_getElem inText
    have place : ((brokenLines document.chars).take number).length = number :=
      List.length_take_of_le (Nat.le_of_lt inText)
    rw [upTo]
    generalize (brokenLines document.chars)[number] = line at lines ⊢
    constructor
    · intro inFront
      rw [← place]
      exact clamps_of_takeUnits lines (takeUnits_withoutReturns lines inFront)
    · rintro ⟨other, behind⟩
      rcases withoutReturns_cases lines with ⟨notOther, -⟩ | ⟨-, kept, more, width⟩
      · exact absurd other notOther
      · have behindAll : units line ≤ column := by omega
        obtain ⟨offset, position⟩ := offsetAt_of_endsOtherwise lines kept more behindAll
        rw [place] at offset position
        exact ⟨offset, offset ▸ position⟩

/-- A text with a character that takes two units, in a line with one of the other breaks. -/
def score : Document :=
  ⟨⟨"/p/pom.xml"⟩, String.ofList ['a', '𝄞', '\u2028', 'b', '\r', '\n', 'c']⟩

theorem offsetAt_clamps_score :
    score.offsetAt ⟨3, 0⟩ = 12 ∧
      (score.Clamps 0 2 ['a', '𝄞', '\u2028'] ∧ score.offsetAt ⟨0, 2⟩ = 1) ∧
      (score.Clamps 1 9 ['b', '\r', '\n'] ∧ score.offsetAt ⟨1, 9⟩ = 9) ∧
      score.positionAt (score.offsetAt ⟨0, 4⟩) = ⟨1, 0⟩ := by
  obtain ⟨pastEnd, -⟩ := offsetAt_clamps score 3 0
  obtain ⟨-, divided⟩ := offsetAt_clamps score 0 2
  obtain ⟨-, behindReturn⟩ := offsetAt_clamps score 1 9
  obtain ⟨-, behindOther⟩ := offsetAt_clamps score 0 4
  have lines : brokenLines score.chars =
      [['a', '𝄞', '\u2028'], ['b', '\r', '\n'], ['c']] := by decide +kernel
  refine ⟨?_, ⟨?_, by decide +kernel⟩, ⟨?_, by decide +kernel⟩, ?_⟩
  · exact pastEnd (by rw [lines]; decide)
  · refine (divided _ (by rw [lines]; rfl)).1 fun ⟨_, behind⟩ => ?_
    exact absurd behind (by decide)
  · refine (behindReturn _ (by rw [lines]; rfl)).1 fun ⟨⟨last, isLast, other⟩, _⟩ => ?_
    obtain rfl : '\n' = last := by simpa using isLast
    exact absurd other (by decide)
  · refine ((behindOther _ (by rw [lines]; rfl)).2 ⟨⟨'\u2028', rfl, ?_⟩, ?_⟩).2
    · decide
    · decide

/-- Two paragraphs. -/
def paragraphs : Document :=
  ⟨⟨"/p/pom.xml"⟩, String.ofList ['a', '\u2028', 'b']⟩

/-- A column behind the first paragraph does not lead to its end, but into the second. -/
theorem not_clamps_paragraphs :
    (brokenLines paragraphs.chars)[0]? = some ['a', '\u2028'] ∧
      ¬ paragraphs.Clamps 0 2 ['a', '\u2028'] ∧
      paragraphs.offsetAt ⟨0, 2⟩ = 4 ∧ paragraphs.positionAt 4 = ⟨1, 0⟩ := by
  have offset : paragraphs.offsetAt ⟨0, 2⟩ = 4 := by decide +kernel
  refine ⟨by decide +kernel, fun clamps => ?_, offset, by decide +kernel⟩
  have inFront := clamps.stop
  rw [offset] at inFront
  exact absurd inFront (by decide +kernel)

end Document

end PomLens
