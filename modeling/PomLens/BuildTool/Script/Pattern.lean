/-
This file defines the patterns of scripts.

A pattern is an expanded word in which some characters stand for others: a star for any
characters, a question mark for any one, and brackets for one of those that they list. A
character that was quoted stands for itself alone.
-/

import PomLens.BuildTool.Script.Command
import PomLens.Text.Places

namespace PomLens.Script

open Text (Places)

/-- A character of an expanded word, with whether it stands only for itself. -/
structure Glyph where
  literal : Bool
  char : Char
  deriving DecidableEq, Repr

/-- The characters of an expanded word. -/
def glyphText (word : List Glyph) : Raw :=
  word.map Glyph.char

/-- A part of a pattern that stands for one character. A run of any characters is none. -/
inductive Piece
  | one (char : Char)
  | any
  | many
  /-- A character that one of the tests accepts, or that none accepts. -/
  | set (negated : Bool) (tests : List (Char → Bool))

/-- The characters of a class that has a name. -/
def classTest? (name : String) : Option (Char → Bool) :=
  let isVisible (char : Char) : Bool := '!' ≤ char && char ≤ '~'
  match name with
  | "alpha" => some Char.isAlpha
  | "digit" => some Char.isDigit
  | "alnum" => some Char.isAlphanum
  | "upper" => some Char.isUpper
  | "lower" => some Char.isLower
  | "space" => some isSpace
  | "blank" => some Text.isLineBlank
  | "punct" => some fun char => isVisible char && !char.isAlphanum
  | "print" => some fun char => isVisible char || char == ' '
  | "graph" => some isVisible
  | "cntrl" => some fun char => char.toNat < 0x20 || char.toNat == 0x7F
  | "xdigit" => some fun char =>
    char.isDigit || ('a' ≤ char.toLower && char.toLower ≤ 'f')
  | _ => none

/-- The name of a class and what follows it, where one starts. -/
def className? : List Glyph → Option (String × List Glyph)
  | ⟨false, '['⟩ :: ⟨_, ':'⟩ :: rest =>
    let name := rest.takeWhile fun glyph => glyph.char.isAlpha
    match rest.drop name.length with
    | ⟨_, ':'⟩ :: ⟨_, ']'⟩ :: after => some (String.ofList (glyphText name), after)
    | _ => none
  | _ => none

/-- The tests of a list in brackets and what follows its end. `first` says that nothing has
been listed yet, so that a bracket is a member. `fuel` bounds the number of members. -/
def bracketTests? (fuel : Nat) (first : Bool) (word : List Glyph) :
    Option (List (Char → Bool) × List Glyph) :=
  match fuel, word with
  | 0, _ => none
  | _, [] => none
  | fuel + 1, glyph :: rest =>
    let more (test : Char → Bool) (after : List Glyph) :=
      (bracketTests? fuel false after).map fun (tests, left) => (test :: tests, left)
    if !first && glyph = ⟨false, ']'⟩ then some ([], rest)
    else
      match className? word with
      | some (name, after) => more ((classTest? name).getD fun _ => false) after
      | none =>
        match rest with
        | ⟨false, '-'⟩ :: last :: after =>
          if last = ⟨false, ']'⟩ then more (· == glyph.char) rest
          else more (fun char => glyph.char ≤ char && char ≤ last.char) after
        | _ => more (· == glyph.char) rest

/-- The pieces of a pattern. A bracket without an end stands for itself. -/
def pieces (word : List Glyph) : List Piece :=
  go word.length word
where
  go (fuel : Nat) (word : List Glyph) : List Piece :=
    match fuel, word with
    | 0, _ | _, [] => []
    | fuel + 1, ⟨true, char⟩ :: rest => .one char :: go fuel rest
    | fuel + 1, ⟨false, char⟩ :: rest =>
      match char with
      | '*' => .many :: go fuel rest
      | '?' => .any :: go fuel rest
      | '\\' =>
        match rest with
        | next :: after => .one next.char :: go fuel after
        | [] => [.one char]
      | '[' =>
        let (negated, body) :=
          match rest with
          | ⟨false, '!'⟩ :: body => (true, body)
          | _ => (false, rest)
        match bracketTests? (body.length + 1) true body with
        | some (tests, after) => .set negated tests :: go fuel after
        | none => .one char :: go fuel rest
      | _ => .one char :: go fuel rest

/-- The places to which a piece leads. -/
def Piece.carry (text : Raw) (places : Places) : Piece → Places
  | .one char => places.step (· == char) text
  | .any => places.step (fun _ => true) text
  | .many => places.run
  | .set negated tests => places.step (fun char => tests.any (· char) != negated) text

/-- The places of a text up to which a pattern matches it from its start. -/
def matchedPlaces (pattern : List Piece) (text : Raw) : Places :=
  pattern.foldl (Piece.carry text) (.start text)

/-- The pattern matches the whole text. -/
def isMatch (pattern : List Glyph) (text : Raw) : Bool :=
  (matchedPlaces (pieces pattern) text).atEnd

/-- Some character of the word may stand for others. -/
def mayMatch (word : List Glyph) : Bool :=
  word.any fun glyph => !glyph.literal && "*?[".toList.contains glyph.char

/-- What remains of a text when the part at one end that matches a pattern is cut off. -/
def Removal.apply (removal : Removal) (pattern : List Glyph) (text : Raw) : Raw :=
  let pattern := pieces pattern
  let forward := matchedPlaces pattern text
  let backward := matchedPlaces pattern.reverse text.reverse
  match removal with
  | .shortestStart => text.drop ((forward.findIdx? id).getD 0)
  | .longestStart => text.drop (lastPlace forward)
  | .shortestEnd => text.take (text.length - (backward.findIdx? id).getD 0)
  | .longestEnd => text.take (text.length - lastPlace backward)
where
  /-- The last place that was reached. -/
  lastPlace (places : Places) : Nat :=
    match places.reverse.findIdx? id with
    | none => 0
    | some fromEnd => places.length - 1 - fromEnd

end PomLens.Script
