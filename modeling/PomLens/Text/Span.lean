/-
This file measures text in bytes and cuts pieces out of it.

Every place in a document is a byte offset: the number of bytes that its UTF-8 form takes
before the place. A span is a pair of offsets. An offset names a place between two
characters only if no character straddles it, so cutting a text at an offset may fail, and
`cut?` says exactly when.
-/

namespace PomLens

/-! ### Sizes and cuts -/

namespace Text

/-- The number of bytes of a text. -/
def size : List Char → Nat
  | [] => 0
  | char :: rest => char.utf8Size + size rest

/-- The two parts of a text before and after a byte offset. There are none when the offset
lies inside a character or past the end. -/
def cut? (offset : Nat) : List Char → Option (List Char × List Char)
  | [] => if offset = 0 then some ([], []) else none
  | char :: rest =>
    if offset = 0 then some ([], char :: rest)
    else if char.utf8Size ≤ offset then
      (cut? (offset - char.utf8Size) rest).map fun (before, after) => (char :: before, after)
    else none

/-- An offset that lies between two characters, or at an end of the text. -/
def isBoundary (text : List Char) (offset : Nat) : Bool :=
  (cut? offset text).isSome

/-- The longest beginning of a text that takes at most `limit` bytes. An offset inside a
character is so moved back to where that character starts. -/
def takeBytes (limit : Nat) : List Char → List Char
  | [] => []
  | char :: rest =>
    if char.utf8Size ≤ limit then char :: takeBytes (limit - char.utf8Size) rest else []

@[simp] theorem size_nil : size [] = 0 := rfl

@[simp] theorem size_cons (char : Char) (rest : List Char) :
    size (char :: rest) = char.utf8Size + size rest := rfl

@[simp] theorem size_append (first second : List Char) :
    size (first ++ second) = size first + size second := by
  induction first with
  | nil => simp
  | cons char rest ih => simp [ih, Nat.add_assoc]

/-- Only the empty text has no bytes. -/
theorem size_eq_zero_iff {text : List Char} : size text = 0 ↔ text = [] := by
  cases text with
  | nil => simp
  | cons char rest =>
    have := char.utf8Size_pos
    simp
    omega

/-- A cut gives back the whole text, the first part taking as many bytes as asked for, and
every division of the text is such a cut. -/
theorem cut?_eq_some_iff {text before after : List Char} {offset : Nat} :
    cut? offset text = some (before, after) ↔ text = before ++ after ∧ size before = offset := by
  induction text generalizing offset before with
  | nil =>
    by_cases start : offset = 0
    · subst start
      cases before <;> cases after <;> simp [cut?]
    · cases before <;> cases after <;> simp [cut?, start, eq_comm]
  | cons char rest ih =>
    have positive := char.utf8Size_pos
    by_cases start : offset = 0
    · subst start
      constructor
      · intro same
        simp only [cut?, ↓reduceIte, Option.some.injEq, Prod.mk.injEq] at same
        obtain ⟨rfl, rfl⟩ := same
        simp
      · rintro ⟨same, noBytes⟩
        rw [size_eq_zero_iff] at noBytes
        subst noBytes
        simp [cut?, same]
    · by_cases fits : char.utf8Size ≤ offset
      · simp only [cut?, start, fits, ↓reduceIte, Option.map_eq_some_iff, Prod.exists,
          Prod.mk.injEq]
        constructor
        · rintro ⟨first, second, found, rfl, rfl⟩
          obtain ⟨rfl, bytes⟩ := ih.mp found
          exact ⟨rfl, by simp; omega⟩
        · rintro ⟨same, bytes⟩
          cases before with
          | nil => exact absurd bytes.symm (by simpa using start)
          | cons head tail =>
            simp only [List.cons_append, List.cons.injEq] at same
            obtain ⟨rfl, rfl⟩ := same
            refine ⟨tail, after, ih.mpr ⟨rfl, ?_⟩, rfl, rfl⟩
            simp at bytes
            omega
      · simp only [cut?, start, fits, ↓reduceIte, reduceCtorEq, false_iff, not_and]
        intro same
        cases before with
        | nil => intro noBytes; exact absurd noBytes.symm (by simpa using start)
        | cons head tail =>
          simp only [List.cons_append, List.cons.injEq] at same
          obtain ⟨rfl, rfl⟩ := same
          simp
          omega

end Text

/-! ### Spans -/

/-- A half-open range of byte offsets. It never ends before it starts. -/
structure Span where
  /-- Where the range starts. -/
  start : Nat
  /-- The first offset past the range. -/
  stop : Nat
  ordered : start ≤ stop
  deriving DecidableEq, Repr

namespace Span

/-- The range between two offsets. An end before the start is moved to the start. -/
def between (start stop : Nat) : Span :=
  ⟨start, max start stop, Nat.le_max_left start stop⟩

/-- The empty range at an offset. -/
def point (offset : Nat) : Span :=
  ⟨offset, offset, Nat.le_refl offset⟩

/-- The number of bytes covered. -/
def length (span : Span) : Nat :=
  span.stop - span.start

/-- A range that covers nothing. -/
def isEmpty (span : Span) : Bool :=
  span.start == span.stop

/-- The offset is one of those covered. -/
def contains (span : Span) (offset : Nat) : Bool :=
  span.start ≤ offset && offset < span.stop

/-- The offset is covered, or is the first one past the range. -/
def touches (span : Span) (offset : Nat) : Bool :=
  span.start ≤ offset && offset ≤ span.stop

/-- The other range lies inside this one. -/
def encloses (outer inner : Span) : Bool :=
  outer.start ≤ inner.start && inner.stop ≤ outer.stop

/-- The characters of a text in a range. There are none when an end of the range lies
inside a character or past the end of the text. -/
def slice? (span : Span) (text : List Char) : Option (List Char) := do
  let (_, rest) ← Text.cut? span.start text
  let (covered, _) ← Text.cut? span.length rest
  return covered

@[simp] theorem start_between (start stop : Nat) : (between start stop).start = start := rfl

@[simp] theorem stop_between_add (start length : Nat) :
    (between start (start + length)).stop = start + length :=
  Nat.max_eq_right (Nat.le_add_right _ _)

theorem encloses_iff {outer inner : Span} :
    outer.encloses inner = true ↔ outer.start ≤ inner.start ∧ inner.stop ≤ outer.stop := by
  simp [encloses]

@[ext] theorem ext {first second : Span} (starts : first.start = second.start)
    (stops : first.stop = second.stop) : first = second := by
  cases first
  cases second
  simp_all

end Span

end PomLens
