/-
This file orders versions.

A version is a list of segments between dots and dashes. A segment is a number or, failing
that, a qualifier. Numbers compare by value and come after qualifiers; a segment that one
version lacks counts as zero against a number and comes after a qualifier. So `1.0` is the
same as `1.0.0` and later than `1.0-SNAPSHOT`.
-/

import PomLens.Text.Blank

namespace PomLens.Version

/-! ### Segments -/

/-- The part of a version between two separators. -/
inductive Segment
  | number (value : Nat)
  /-- Kept in lower case, since case does not count. -/
  | qualifier (lowered : List Char)
  deriving DecidableEq, Repr

/-- Numbers from here on do not fit the 64 bits that a segment's number has, and are
qualifiers instead. -/
def numberBound : Nat := UInt64.size

/-- The value of a nonempty run of decimal digits. -/
def decimal? (digits : List Char) : Option Nat :=
  if digits.isEmpty || !digits.all Char.isDigit then none
  else some (digits.foldl (fun value digit => 10 * value + (digit.toNat - '0'.toNat)) 0)

/-- Reads a number: digits, with or without a plus sign, below the bound. -/
def number? (text : List Char) : Option Nat :=
  let digits :=
    match text with
    | '+' :: rest => rest
    | _ => text
  (decimal? digits).filter (· < numberBound)

/-- Reads a segment. Only the ASCII letters have a lower case here. -/
def Segment.ofText (text : List Char) : Segment :=
  match number? text with
  | some value => .number value
  | none => .qualifier (text.map Char.toLower)

/-- The segments of a version. Separators next to each other enclose no segment. -/
def segments (version : String) : List Segment :=
  ((Text.splitOn (fun char => char == '.' || char == '-') version.toList).filter
    (fun text => !text.isEmpty)).map Segment.ofText

/-! ### Order -/

/-- The order of two segments at the same place. -/
def Segment.compare : Segment → Segment → Ordering
  | .number left, .number right => Ord.compare left right
  | .number _, .qualifier _ => .gt
  | .qualifier _, .number _ => .lt
  | .qualifier left, .qualifier right => Ord.compare left right

/-- The order of a missing segment against one that is there. -/
def Segment.compareMissing : Segment → Ordering
  | .number value => if value = 0 then .eq else .lt
  | .qualifier _ => .gt

/-- The order of two lists of segments: the first place where they differ decides. -/
def compareSegments : List Segment → List Segment → Ordering
  | [], [] => .eq
  | left :: lefts, [] => left.compareMissing.swap.then (compareSegments lefts [])
  | [], right :: rights => right.compareMissing.then (compareSegments [] rights)
  | left :: lefts, right :: rights => (left.compare right).then (compareSegments lefts rights)

/-- The order of two versions. Different versions may be equal in it. -/
def compare (left right : String) : Ordering :=
  compareSegments (segments left) (segments right)

end PomLens.Version
