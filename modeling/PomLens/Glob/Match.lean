/-
This file says which paths a glob matches.

Paths are matched byte by byte: each token carries the places of a path that those before it
may have come to on to the places where it may end.
-/

import PomLens.Glob.Pattern
import PomLens.Text.Places

namespace PomLens.Glob

open Text (Places)

/-! ### Bytes of characters -/

/-- The bytes of a character. -/
def charBytes (char : Char) : List UInt8 :=
  (String.ofList [char]).toUTF8.toList

/-- The byte ranges of a range of characters. Characters of several bytes take part with
each of their bytes: the range proper runs from the last byte of the first character to the
first byte of the last. -/
def byteRanges (range : Char × Char) : List (UInt8 × UInt8) :=
  let (first, last) := range
  if first = last then (charBytes first).map fun byte => (byte, byte)
  else
    match (charBytes first).reverse, charBytes last with
    | low :: before, high :: after =>
      (low, high) :: (before ++ after).map fun byte => (byte, byte)
    | _, _ => []

/-- The byte is in one of the ranges or, for a negated set, in none. -/
def inSet (negated : Bool) (ranges : List (UInt8 × UInt8)) (byte : UInt8) : Bool :=
  (ranges.any fun (first, last) => first ≤ byte && byte ≤ last) != negated

/-! ### Empty branches -/

mutual

/-- The token stands for the empty text alone: it is a group of nothing but empty branches. -/
def Token.isEmpty : Token → Bool
  | .alternatives branches => branchesAreEmpty branches
  | _ => false

def branchIsEmpty : List Token → Bool
  | [] => true
  | token :: rest => token.isEmpty && branchIsEmpty rest

def branchesAreEmpty : List (List Token) → Bool
  | [] => true
  | branch :: rest => branchIsEmpty branch && branchesAreEmpty rest

end

/-! ### Matching -/

mutual

/-- The places to which a token leads from those reached in front of it. -/
def Token.carry (bytes : List UInt8) (places : Places) : Token → Places
  | .literal char =>
    (charBytes char).foldl (fun places byte => places.step (· == byte) bytes) places
  | .any => places.step (fun _ => true) bytes
  | .many => places.run
  | .leadingSteps => places.union (slash places.run)
  | .trailingSteps => (slash places).run
  | .innerSteps => (slash places).union (slash (slash places).run)
  | .set negated ranges => places.step (inSet negated (ranges.flatMap byteRanges)) bytes
  | .alternatives branches =>
    if branchesAreEmpty branches then places else carryBranches bytes places branches
where
  /-- The places behind a slash. -/
  slash (places : Places) : Places :=
    places.step (· == '/'.toUInt8) bytes

/-- The places to which a sequence of tokens leads. -/
def carryAll (bytes : List UInt8) (places : Places) : List Token → Places
  | [] => places
  | token :: rest => carryAll bytes (token.carry bytes places) rest

/-- The places to which one of the branches leads. An empty branch is left out. -/
def carryBranches (bytes : List UInt8) (places : Places) : List (List Token) → Places
  | [] => places.map fun _ => false
  | branch :: rest =>
    let others := carryBranches bytes places rest
    if branchIsEmpty branch then others else (carryAll bytes places branch).union others

end

/-- The glob matches the text as a whole. Two stars alone stand for everything. -/
def isMatch (tokens : List Token) (text : String) : Bool :=
  match tokens with
  | [.leadingSteps] => true
  | _ =>
    let bytes := text.toUTF8.toList
    (carryAll bytes (.start bytes) tokens).atEnd

end PomLens.Glob
