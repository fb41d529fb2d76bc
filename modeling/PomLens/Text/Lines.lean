/-
This file divides a text into lines and measures lines in UTF-16 units.

An editor addresses text by line and column, and counts columns in UTF-16 units. A line
keeps its break at its end, so the lines of a text put together are the text again
(`flatten_brokenLines`). Eight breaks are known: a line feed, a carriage return, the two
together as one, the vertical tab, the form feed, and the three Unicode breaks.
-/

namespace PomLens.Text

/-! ### Lines with their breaks -/

/-- The character ends a line, given the text after it. A carriage return before a line feed
does not: the line feed then ends the line for both. -/
def breaksLine (char : Char) (rest : List Char) : Bool :=
  match char.toNat with
  | 0x0A | 0x0B | 0x0C | 0x85 | 0x2028 | 0x2029 => true
  | 0x0D => rest.head? != some '\n'
  | _ => false

/-- The lines of a text, each with its break. The last one has none, and is empty when the
text is empty or ends with a break. -/
def brokenLines : List Char → List (List Char)
  | [] => [[]]
  | char :: rest =>
    if breaksLine char rest then [char] :: brokenLines rest
    else
      match brokenLines rest with
      | [] => [[char]]
      | line :: lines => (char :: line) :: lines

theorem flatten_brokenLines (text : List Char) : (brokenLines text).flatten = text := by
  induction text with
  | nil => rfl
  | cons char rest ih =>
    rw [brokenLines]
    split
    · simp [ih]
    · split
      · next none => rw [none] at ih; simp [← ih]
      · next line lines some => rw [some] at ih; simp [← ih]

/-- A line without the carriage returns and line feeds at its end. The other breaks stay:
a column may lie behind them. -/
def withoutReturns (line : List Char) : List Char :=
  dropReturns line.reverse |>.reverse
where
  dropReturns (reversed : List Char) : List Char :=
    reversed.dropWhile fun char => char == '\n' || char == '\r'

/-! ### UTF-16 units -/

/-- A character outside the basic plane is a pair of units. -/
def charUnits (char : Char) : Nat :=
  if char.toNat < 0x10000 then 1 else 2

/-- The number of UTF-16 units of a text. -/
def units : List Char → Nat
  | [] => 0
  | char :: rest => charUnits char + units rest

/-- The longest beginning of a text that takes at most `limit` units. A column between the
two units of a pair is so moved back to where the pair starts. -/
def takeUnits (limit : Nat) : List Char → List Char
  | [] => []
  | char :: rest =>
    if charUnits char ≤ limit then char :: takeUnits (limit - charUnits char) rest else []

end PomLens.Text
