/-
This file reads bytes as text.

A character is a leading byte and as many further bytes as the leading one asks for, each in
its range. Where the bytes do not go on like that, those that did so far are one ill-formed
piece, and reading starts anew behind it. A text is well formed if it has no such piece.
-/

namespace PomLens.Text

/-- The range of all bytes that are not leading. -/
def trailing : UInt8 × UInt8 := (0x80, 0xBF)

/-- The ranges of the bytes that follow a leading byte. They leave out longer spellings than
needed, halves of pairs and codes that are too large. -/
def following? (lead : UInt8) : Option (List (UInt8 × UInt8)) :=
  if lead < 0x80 then some []
  else if lead < 0xC2 then none
  else if lead < 0xE0 then some [trailing]
  else if lead = 0xE0 then some [(0xA0, 0xBF), trailing]
  else if lead = 0xED then some [(0x80, 0x9F), trailing]
  else if lead < 0xF0 then some [trailing, trailing]
  else if lead = 0xF0 then some [(0x90, 0xBF), trailing, trailing]
  else if lead < 0xF4 then some [trailing, trailing, trailing]
  else if lead = 0xF4 then some [(0x80, 0x8F), trailing, trailing]
  else none

/-- The longest run of bytes that fit the ranges in turn, and what follows it. -/
def takeFollowing : List (UInt8 × UInt8) → List UInt8 → List UInt8 × List UInt8
  | (low, high) :: ranges, byte :: rest =>
    if low ≤ byte && byte ≤ high then
      let (taken, left) := takeFollowing ranges rest
      (byte :: taken, left)
    else ([], byte :: rest)
  | _, bytes => ([], bytes)

theorem length_takeFollowing (ranges : List (UInt8 × UInt8)) (bytes : List UInt8) :
    (takeFollowing ranges bytes).2.length ≤ bytes.length := by
  induction ranges generalizing bytes with
  | nil => simp [takeFollowing]
  | cons range ranges inductionHypothesis =>
    obtain ⟨low, high⟩ := range
    cases bytes with
    | nil => simp [takeFollowing]
    | cons byte rest =>
      rw [takeFollowing]
      split
      · have := inductionHypothesis rest
        simp only [List.length_cons]
        omega
      · exact Nat.le_refl _

/-- The character spelled by a leading byte and those that follow it. -/
def charOfBytes (lead : UInt8) (more : List UInt8) : Char :=
  let high := if more.isEmpty then lead.toNat else lead.toNat % (64 >>> more.length)
  Char.ofNat (more.foldl (fun code byte => code * 64 + byte.toNat % 64) high)

/-- The characters that bytes spell, with a gap for each ill-formed piece. -/
def readBytes (bytes : List UInt8) : List (Option Char) :=
  match bytes with
  | [] => []
  | lead :: rest =>
    match following? lead with
    | none => none :: readBytes rest
    | some ranges =>
      let taken := (takeFollowing ranges rest).1
      let char := if taken.length = ranges.length then some (charOfBytes lead taken) else none
      char :: readBytes (takeFollowing ranges rest).2
termination_by bytes.length
decreasing_by
  · simp
  · have := length_takeFollowing ranges rest
    simp
    omega

/-- The text that well-formed bytes spell. -/
def ofBytes? (bytes : List UInt8) : Option String := do
  return String.ofList (← (readBytes bytes).mapM id)

/-- The text that bytes spell, with a replacement character for each ill-formed piece. -/
def ofBytes (bytes : List UInt8) : String :=
  String.ofList ((readBytes bytes).map fun char => char.getD '\uFFFD')

/-- The bytes that spell a text. -/
def toBytes (text : List Char) : List UInt8 :=
  (String.ofList text).toUTF8.toList

end PomLens.Text
