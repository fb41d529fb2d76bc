/-
This file takes markup apart into pieces and reads it back.

A piece is one character of data, a literal section, an aside, or an element with the pieces
inside it. Character data are taken one character at a time: two stretches of pieces can then
be put side by side without asking whether the data at their seam become one run. Only the
tokens know about runs, and `tokens` says how the pieces fall into them.

The main statement is `scan_written`: sound pieces, written out, are scanned into their
tokens. It is what makes an edit of a text an edit of its pieces.
-/

import PomLens.Markup.Tree
import PomLens.Proofs.Markup.Delimiting

namespace PomLens.Markup

/-! ### Pieces -/

inductive Piece
  /-- One character of data. -/
  | char (char : Char)
  /-- The content of a literal section. -/
  | literal (content : List Char)
  /-- Markup without content, as written. -/
  | aside (written : List Char)
  /-- A self-closing element, by what stands in its tag. -/
  | single (body : List Char)
  /-- An element between two tags. -/
  | pair (opening : List Char) (inside : List Piece) (closing : List Char)

namespace Piece

/-- Facts about stretches of pieces are proved piece after piece, and inside an element
first. -/
@[elab_as_elim]
theorem stretchInduction {motive : List Piece → Prop} (nil : motive [])
    (char : ∀ one rest, motive rest → motive (.char one :: rest))
    (literal : ∀ content rest, motive rest → motive (.literal content :: rest))
    (aside : ∀ written rest, motive rest → motive (.aside written :: rest))
    (single : ∀ body rest, motive rest → motive (.single body :: rest))
    (pair : ∀ opening inside closing rest, motive inside → motive rest →
      motive (.pair opening inside closing :: rest)) :
    ∀ pieces, motive pieces
  | [] => nil
  | .char one :: rest =>
    char one rest (stretchInduction nil char literal aside single pair rest)
  | .literal content :: rest =>
    literal content rest (stretchInduction nil char literal aside single pair rest)
  | .aside written :: rest =>
    aside written rest (stretchInduction nil char literal aside single pair rest)
  | .single body :: rest =>
    single body rest (stretchInduction nil char literal aside single pair rest)
  | .pair opening inside closing :: rest =>
    pair opening inside closing rest
      (stretchInduction nil char literal aside single pair inside)
      (stretchInduction nil char literal aside single pair rest)

/-- The pieces that are elements, and no others. -/
def isElement : Piece → Bool
  | .single _ | .pair .. => true
  | _ => false

/-- The pieces inside an element. -/
def inside : Piece → List Piece
  | .pair _ inside _ => inside
  | _ => []

/-- The name of an element. -/
def name? : Piece → Option String
  | .single body => some (tagName body)
  | .pair opening _ _ => some (tagName opening)
  | _ => none

/-- Characters of data. -/
def data (chars : List Char) : List Piece :=
  chars.map .char

/-- The characters that pieces were taken from. -/
def written : List Piece → List Char
  | [] => []
  | .char one :: rest => one :: written rest
  | .literal content :: rest => (Token.literal content).written ++ written rest
  | .aside text :: rest => (Token.aside text).written ++ written rest
  | .single body :: rest => (Token.selfClosing body).written ++ written rest
  | .pair opening inside closing :: rest =>
    (Token.opening opening).written ++ written inside ++ (Token.closing closing).written ++
      written rest

@[simp] theorem written_append (first second : List Piece) :
    written (first ++ second) = written first ++ written second := by
  induction first using stretchInduction <;> simp_all [written]

@[simp] theorem written_nil : written [] = [] := by
  rw [written]

@[simp] theorem written_data (chars : List Char) : written (data chars) = chars := by
  induction chars with
  | nil => exact written_nil
  | cons one rest inductionHypothesis =>
    rw [data, List.map_cons, written, ← data, inductionHypothesis]

theorem written_cons (piece : Piece) (rest : List Piece) :
    written (piece :: rest) = written [piece] ++ written rest :=
  written_append [piece] rest

@[simp] theorem data_nil : data [] = [] := rfl

/-! ### Soundness -/

/-- Every piece can be told from what stands beside it: data hold no angle bracket, markup ends
by itself, and an element has the same name at both ends. -/
def Sound : List Piece → Prop
  | [] => True
  | .char one :: rest => one ≠ '<' ∧ Sound rest
  | .literal content :: rest => (Token.literal content).Delimited ∧ Sound rest
  | .aside text :: rest => (Token.aside text).Delimited ∧ Sound rest
  | .single body :: rest => (Token.selfClosing body).Delimited ∧ Sound rest
  | .pair opening inside closing :: rest =>
    (Token.opening opening).Delimited ∧ (Token.closing closing).Delimited ∧
      tagName opening = closingName closing ∧ Sound inside ∧ Sound rest

@[simp] theorem sound_nil : Sound [] := by
  simp [Sound]

@[simp] theorem sound_append {first second : List Piece} :
    Sound (first ++ second) ↔ Sound first ∧ Sound second := by
  induction first using stretchInduction <;> simp_all [Sound, and_assoc]

theorem sound_cons {piece : Piece} {rest : List Piece} :
    Sound (piece :: rest) ↔ Sound [piece] ∧ Sound rest := by
  rw [← List.singleton_append, sound_append]

theorem sound_data {chars : List Char} : Sound (data chars) ↔ '<' ∉ chars := by
  induction chars with
  | nil => simp
  | cons one rest inductionHypothesis =>
    rw [data, List.map_cons, Sound, ← data, inductionHypothesis, List.mem_cons, not_or,
      ne_comm]

theorem sound_pair {opening closing : List Char} {inside : List Piece} :
    Sound [.pair opening inside closing] ↔
      (Token.opening opening).Delimited ∧ (Token.closing closing).Delimited ∧
        tagName opening = closingName closing ∧ Sound inside := by
  simp [Sound]

/-! ### Tokens -/

/-- The token of a run of data. An empty run has none. -/
def pending (run : List Char) : List Token :=
  if run = [] then [] else [.text run]

/-- The tokens of pieces, when the data in `run` stand right before them. -/
def tokens (run : List Char) : List Piece → List Token
  | [] => pending run
  | .char one :: rest => tokens (run ++ [one]) rest
  | .literal content :: rest => pending run ++ .literal content :: tokens [] rest
  | .aside text :: rest => pending run ++ .aside text :: tokens [] rest
  | .single body :: rest => pending run ++ .selfClosing body :: tokens [] rest
  | .pair opening inside closing :: rest =>
    pending run ++ .opening opening :: (tokens [] inside ++ .closing closing :: tokens [] rest)

/-- The text begins with markup, or is empty. -/
def AtMarkup (text : List Char) : Prop :=
  ∀ first, text.head? = some first → first = '<'

theorem atMarkup_nil : AtMarkup [] := by
  simp [AtMarkup]

/-- A token other than data begins with an angle bracket. -/
theorem atMarkup_written {token : Token} (delimited : token.Delimited)
    (notText : ∀ run, token ≠ .text run) (after : List Char) :
    AtMarkup (token.written ++ after) := by
  obtain ⟨first, rest, written, read⟩ := delimited
  intro other begins
  rw [written] at begins
  simp only [List.cons_append, List.head?_cons, Option.some.injEq] at begins
  subst begins
  by_contra data
  have same := read []
  simp only [next, data, ne_eq, not_false_eq_true, ↓reduceIte] at same
  injection same with whole
  injection whole with text
  exact notText _ text.symm

/-- A run of data before markup is one token. -/
theorem scan_run {run after : List Char} (noMarkup : '<' ∉ run) (stops : AtMarkup after) :
    scan (run ++ after) = (pending run ++ (scan after).1, (scan after).2) := by
  match run with
  | [] => simp [pending]
  | first :: rest =>
    simp only [List.mem_cons, not_or] at noMarkup
    have inRest : ∀ char ∈ rest, (decide (char ≠ '<')) = true := fun char member => by
      simp only [ne_eq, decide_not, Bool.not_eq_true', decide_eq_false_iff_not]
      rintro rfl
      exact noMarkup.2 member
    have behind : after.takeWhile (· ≠ '<') = [] ∧ after.dropWhile (· ≠ '<') = after := by
      match after with
      | [] => simp
      | head :: tail =>
        obtain rfl := stops head rfl
        simp
    have read : next first (rest ++ after) = .ok (.text (first :: rest), after) := by
      unfold next
      rw [if_pos (Ne.symm noMarkup.1), List.takeWhile_append_of_pos inRest,
        List.dropWhile_append_of_pos inRest, behind.1, behind.2, List.append_nil]
      rfl
    rw [List.cons_append, scan_of_read read]
    simp [pending]

/-- A delimited token is read first, and then what stands behind it. -/
theorem scan_delimited {token : Token} (delimited : token.Delimited) (after : List Char) :
    scan (token.written ++ after) = (token :: (scan after).1, (scan after).2) := by
  obtain ⟨first, rest, written, read⟩ := delimited
  rw [written, List.cons_append, scan_of_read (read after)]

/-- Data and the markup behind them. -/
theorem scan_run_delimited {run : List Char} {token : Token} (noMarkup : '<' ∉ run)
    (delimited : token.Delimited) (notText : ∀ run, token ≠ .text run) (after : List Char) :
    scan (run ++ (token.written ++ after)) =
      (pending run ++ token :: (scan after).1, (scan after).2) := by
  rw [scan_run noMarkup (atMarkup_written delimited notText after), scan_delimited delimited]

/-- Sound pieces are scanned into their tokens, whatever markup stands behind them. -/
theorem scan_written_append {pieces : List Piece} (sound : Sound pieces) {run after : List Char}
    (noMarkup : '<' ∉ run) (stops : AtMarkup after) :
    scan (run ++ (written pieces ++ after)) =
      (tokens run pieces ++ (scan after).1, (scan after).2) := by
  induction pieces using stretchInduction generalizing run after with
  | nil => simpa [tokens] using scan_run noMarkup stops
  | char one rest inductionHypothesis =>
    rw [Sound] at sound
    have longer : '<' ∉ run ++ [one] := by simp [noMarkup, sound.1.symm]
    simpa [written, tokens] using inductionHypothesis sound.2 longer stops
  | literal content rest inductionHypothesis =>
    rw [Sound] at sound
    have behind := inductionHypothesis sound.2 (List.not_mem_nil (a := '<')) stops
    rw [List.nil_append] at behind
    rw [written, List.append_assoc, scan_run_delimited noMarkup sound.1 (by simp), behind, tokens]
    simp
  | aside text rest inductionHypothesis =>
    rw [Sound] at sound
    have behind := inductionHypothesis sound.2 (List.not_mem_nil (a := '<')) stops
    rw [List.nil_append] at behind
    rw [written, List.append_assoc, scan_run_delimited noMarkup sound.1 (by simp), behind, tokens]
    simp
  | single body rest inductionHypothesis =>
    rw [Sound] at sound
    have behind := inductionHypothesis sound.2 (List.not_mem_nil (a := '<')) stops
    rw [List.nil_append] at behind
    rw [written, List.append_assoc, scan_run_delimited noMarkup sound.1 (by simp), behind, tokens]
    simp
  | pair opening inside closing rest insideHypothesis inductionHypothesis =>
    rw [Sound] at sound
    obtain ⟨opens, closes, -, soundInside, soundRest⟩ := sound
    have behind := inductionHypothesis soundRest (List.not_mem_nil (a := '<')) stops
    have within := insideHypothesis soundInside (List.not_mem_nil (a := '<'))
      (atMarkup_written closes (by simp) (written rest ++ after))
    rw [List.nil_append] at behind within
    rw [written, List.append_assoc, List.append_assoc, List.append_assoc,
      scan_run_delimited noMarkup opens (by simp), within, scan_delimited closes, behind, tokens]
    simp

/-- Sound pieces are scanned into their tokens. -/
theorem scan_written {pieces : List Piece} (sound : Sound pieces) :
    scan (written pieces) = (tokens [] pieces, none) := by
  have scanned := scan_written_append sound (List.not_mem_nil (a := '<')) atMarkup_nil
  simpa using scanned

end Piece

end PomLens.Markup
