/-
This file says which characters are blank and how text is cut at blanks and separators.

A character is blank when it has the Unicode property White_Space. The property is a fixed
list of characters, so `isBlank` is that list, and every trimming and splitting of the
library goes through the few functions below. All of them work on lists of characters:
the text of a document, a report line or a settings file is read as such a list.
-/

namespace PomLens.Text

/-! ### Blank characters -/

/-- The characters with the Unicode property White_Space. -/
def isBlank (char : Char) : Bool :=
  let code := char.toNat
  (0x09 ≤ code && code ≤ 0x0D) || code == 0x20 || code == 0x85 || code == 0xA0 ||
    code == 0x1680 || (0x2000 ≤ code && code ≤ 0x200A) || code == 0x2028 || code == 0x2029 ||
    code == 0x202F || code == 0x205F || code == 0x3000

/-- The text without the longest suffix whose characters all satisfy `drop`. -/
def dropEndWhile (drop : Char → Bool) (text : List Char) : List Char :=
  (text.reverse.dropWhile drop).reverse

/-- The text without its leading blanks. -/
def trimStart (text : List Char) : List Char :=
  text.dropWhile isBlank

/-- The text without its trailing blanks. -/
def trimEnd (text : List Char) : List Char :=
  dropEndWhile isBlank text

/-- The text without blanks at either end. -/
def trim (text : List Char) : List Char :=
  trimEnd (trimStart text)

/-- Only blank characters, or none at all. -/
def blank (text : List Char) : Bool :=
  text.all isBlank

/-- What is cut off by `dropEndWhile` is a suffix. -/
theorem dropEndWhile_beginning (drop : Char → Bool) (text : List Char) :
    dropEndWhile drop text <+: text := by
  have suffix := List.dropWhile_suffix (l := text.reverse) drop
  rw [← List.reverse_prefix] at suffix
  simpa [dropEndWhile] using suffix

/-! ### Pieces between separators -/

/-- The pieces of a text between the characters that satisfy `separates`. There is always at
least one piece, and a separator at either end leaves an empty one there. -/
def splitOn (separates : Char → Bool) : List Char → List (List Char)
  | [] => [[]]
  | char :: rest =>
    match splitOn separates rest with
    | [] => [[char]]
    | piece :: pieces =>
      if separates char then [] :: piece :: pieces else (char :: piece) :: pieces

/-- The text before and after the first character that satisfies `separates`, if there is
one. -/
def splitOnce? (separates : Char → Bool) (text : List Char) : Option (List Char × List Char) :=
  match text.dropWhile (fun char => !separates char) with
  | [] => none
  | _ :: rest => some (text.takeWhile (fun char => !separates char), rest)

/-- What follows `mark`, if the text begins with it. -/
def afterPrefix? : List Char → List Char → Option (List Char)
  | [], text => some text
  | _ :: _, [] => none
  | expected :: mark, char :: text =>
    if expected = char then afterPrefix? mark text else none

/-- What precedes `mark`, if the text ends with it. -/
def beforeSuffix? (mark text : List Char) : Option (List Char) :=
  (afterPrefix? mark.reverse text.reverse).map List.reverse

theorem afterPrefix?_eq_some_iff {mark text rest : List Char} :
    afterPrefix? mark text = some rest ↔ text = mark ++ rest := by
  induction mark generalizing text with
  | nil => simp [afterPrefix?]
  | cons expected mark ih =>
    cases text with
    | nil => simp [afterPrefix?]
    | cons char text =>
      by_cases same : expected = char
      · subst same
        simp [afterPrefix?, ih]
      · have other : ¬ char = expected := fun equal => same equal.symm
        simp [afterPrefix?, same, other]

theorem beforeSuffix?_eq_some_iff {mark text rest : List Char} :
    beforeSuffix? mark text = some rest ↔ text = rest ++ mark := by
  simp only [beforeSuffix?, Option.map_eq_some_iff, afterPrefix?_eq_some_iff]
  constructor
  · rintro ⟨reversed, same, rfl⟩
    simpa using congrArg List.reverse same
  · rintro rfl
    exact ⟨rest.reverse, by simp, by simp⟩

/-- The text before and after the first occurrence of `mark`, if there is one. -/
def splitAtText? (mark : List Char) : List Char → Option (List Char × List Char)
  | [] => if mark.isEmpty then some ([], []) else none
  | char :: rest =>
    match afterPrefix? mark (char :: rest) with
    | some after => some ([], after)
    | none => (splitAtText? mark rest).map fun (before, after) => (char :: before, after)

theorem splitOn_ne_nil (separates : Char → Bool) (text : List Char) :
    splitOn separates text ≠ [] := by
  cases text with
  | nil => simp [splitOn]
  | cons char rest =>
    rw [splitOn]
    split
    · simp
    · split <;> simp

/-- What follows an occurrence of a mark that is not empty is shorter than the text. -/
theorem length_lt_of_splitAtText? {mark text before after : List Char} (marked : mark ≠ [])
    (found : splitAtText? mark text = some (before, after)) : after.length < text.length := by
  induction text generalizing before with
  | nil => simp [splitAtText?, marked] at found
  | cons char rest ih =>
    rw [splitAtText?] at found
    split at found
    · next tail follows =>
      obtain ⟨rfl, rfl⟩ : [] = before ∧ tail = after := by simpa using found
      have lengths := congrArg List.length (afterPrefix?_eq_some_iff.mp follows)
      have : 0 < mark.length := List.length_pos_iff.mpr marked
      simp at lengths ⊢
      omega
    · obtain ⟨⟨first, second⟩, inner, same⟩ := Option.map_eq_some_iff.mp found
      simp only [Prod.mk.injEq] at same
      obtain ⟨_, rfl⟩ := same
      have := ih inner
      simp
      omega

/-- The pieces of a text between the occurrences of `mark`, read from the left without
overlap. An empty mark separates nothing. -/
def splitOnText (mark : List Char) (text : List Char) : List (List Char) :=
  if _marked : mark = [] then [text]
  else
    match _found : splitAtText? mark text with
    | none => [text]
    | some (before, after) => before :: splitOnText mark after
termination_by text.length
decreasing_by exact length_lt_of_splitAtText? _marked _found

/-- The lines of a text: a line ends at a line feed, and a carriage return just before the
line feed belongs to the ending. An ending at the very end of the text opens no further
line. -/
def lines (text : List Char) : List (List Char) :=
  let pieces := splitOn (· == '\n') text
  let ended := pieces.dropLast.map fun line =>
    if line.getLast? = some '\r' then line.dropLast else line
  match pieces.getLast? with
  | none | some [] => ended
  | some last => ended ++ [last]

end PomLens.Text
