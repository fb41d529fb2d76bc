/-
This file says when the tokens of a text are still there in another text.

Markup is still there if the other text has the same token. Of a run of data it is what stands
between the outer blanks that counts, and that may be part of a longer run: where an element
between two runs goes away, they become one. All are looked for in their order (`Survives`).

Edits cut runs of data, but only at their outer blanks. So a run is taken apart into these blanks,
one by one, and what is between them (`Token.parts`). Parts that survive as parts do so as the
tokens that they are read as (`Survives.joined`), and tokens survive if their parts do
(`Survives.of_parts`).
-/

import PomLens.Proofs.Markup.Seams

namespace PomLens.Markup

open Piece (pending AtMarkup)
open Text (blank trim)

/-! ### Tokens in another text -/

/-- What a tag holds behind its name, without blanks at either end. -/
def attributes (body : List Char) : List Char :=
  trim (body.dropWhile fun char => !isTagBlank char)

/-- The old tokens are still there among the new ones, in their order. Blank data may be gone. A
self-closing tag may have become an element with an end of its own, if its opening tag is one that
the old tag may expand to. -/
inductive Survives (expands : List Char → List Char → Prop) : List Token → List Token → Prop
  | nil : Survives expands [] []
  | new {old new : List Token} (token : Token) (behind : Survives expands old new) :
      Survives expands old (token :: new)
  | same {old new : List Token} (token : Token) (behind : Survives expands old new) :
      Survives expands (token :: old) (token :: new)
  | blanks {old new : List Token} {run : List Char} (blanks : blank run = true)
      (behind : Survives expands old new) : Survives expands (.text run :: old) new
  /-- What is left of the new run may hold further data. -/
  | data {old new : List Token} {run : List Char} (before : List Char) {rest : List Char}
      (behind : Survives expands old (.text rest :: new)) :
      Survives expands (.text run :: old) (.text (before ++ trim run ++ rest) :: new)
  | expanded {old new : List Token} {body opening closing : List Char} (inside : List Token)
      (allowed : expands body opening) (sameName : tagName opening = closingName closing)
      (behind : Survives expands old new) :
      Survives expands (.selfClosing body :: old)
        (.opening opening :: (inside ++ .closing closing :: new))

namespace Survives

variable {expands : List Char → List Char → Prop} {old new : List Token}

theorem none (new : List Token) : Survives expands [] new := by
  induction new with
  | nil => exact .nil
  | cons token rest inductionHypothesis => exact inductionHypothesis.new token

theorem front (front : List Token) (survives : Survives expands old new) :
    Survives expands old (front ++ new) := by
  induction front with
  | nil => exact survives
  | cons token rest inductionHypothesis => exact inductionHypothesis.new token

theorem refl (tokens : List Token) : Survives expands tokens tokens := by
  induction tokens with
  | nil => exact .nil
  | cons token rest inductionHypothesis => exact inductionHypothesis.same token

theorem of_blank {tokens : List Token}
    (blanks : ∀ token ∈ tokens, ∃ run, token = .text run ∧ blank run = true) (new : List Token) :
    Survives expands tokens new := by
  induction tokens with
  | nil => exact none new
  | cons token rest inductionHypothesis =>
    obtain ⟨⟨run, rfl, blankRun⟩, others⟩ := List.forall_mem_cons.mp blanks
    exact .blanks blankRun (inductionHypothesis others)

theorem append {old' new' : List Token} (first : Survives expands old new)
    (second : Survives expands old' new') : Survives expands (old ++ old') (new ++ new') := by
  induction first with
  | nil => exact second
  | new token _ inductionHypothesis => exact inductionHypothesis.new token
  | same token _ inductionHypothesis => exact inductionHypothesis.same token
  | blanks blanks _ inductionHypothesis => exact .blanks blanks inductionHypothesis
  | data before _ inductionHypothesis => exact .data before inductionHypothesis
  | expanded inside allowed sameName _ inductionHypothesis =>
    simpa using Survives.expanded inside allowed sameName inductionHypothesis

/-- The old tokens behind the first may be replaced by others that survive as well. -/
theorem behind_cons {old' : List Token} {token : Token}
    (survives : Survives expands (token :: old) new)
    (weaker : ∀ new, Survives expands old new → Survives expands old' new) :
    Survives expands (token :: old') new := by
  generalize whole : token :: old = tokens at survives
  induction survives with
  | nil => cases whole
  | new other _ inductionHypothesis => exact (inductionHypothesis whole).new other
  | same other behind _ =>
    obtain ⟨rfl, rfl⟩ := List.cons.inj whole
    exact (weaker _ behind).same token
  | blanks blanks behind _ =>
    obtain ⟨rfl, rfl⟩ := List.cons.inj whole
    exact .blanks blanks (weaker _ behind)
  | data before behind _ =>
    obtain ⟨rfl, rfl⟩ := List.cons.inj whole
    exact .data before (weaker _ behind)
  | expanded inside allowed sameName behind _ =>
    obtain ⟨rfl, rfl⟩ := List.cons.inj whole
    exact .expanded inside allowed sameName (weaker _ behind)

theorem behind_append {old' first : List Token} (survives : Survives expands (first ++ old) new)
    (weaker : ∀ new, Survives expands old new → Survives expands old' new) :
    Survives expands (first ++ old') new := by
  induction first generalizing new with
  | nil => exact weaker new survives
  | cons token rest inductionHypothesis =>
    exact survives.behind_cons fun _ => inductionHypothesis

/-- A new run may be longer at its front. -/
theorem longer {run : List Char} (survives : Survives expands old (.text run :: new))
    (more : List Char) : Survives expands old (.text (more ++ run) :: new) := by
  generalize whole : Token.text run :: new = tokens at survives
  induction survives generalizing run with
  | nil => cases whole
  | new token behind _ =>
    obtain ⟨rfl, rfl⟩ := List.cons.inj whole
    exact behind.new _
  | same token behind _ =>
    obtain ⟨rfl, rfl⟩ := List.cons.inj whole
    obtain ⟨lead, tail, split⟩ := Text.exists_eq_append_trim run
    have inRun : Survives expands (.text run :: _) _ :=
      .data (more ++ lead) (behind.new (.text tail))
    rwa [List.append_assoc, List.append_assoc, ← split] at inRun
  | blanks blanks _ inductionHypothesis => exact .blanks blanks (inductionHypothesis whole)
  | @data _ _ oldRun before rest behind _ =>
    obtain ⟨same, rfl⟩ := List.cons.inj whole
    obtain rfl := Token.text.inj same
    have inRun : Survives expands (.text oldRun :: _) _ := .data (more ++ before) behind
    rwa [List.append_assoc, List.append_assoc, ← List.append_assoc before] at inRun
  | expanded => cases whole

/-- An old token may be left out. -/
theorem drop {token : Token} (survives : Survives expands (token :: old) new) :
    Survives expands old new := by
  generalize whole : token :: old = tokens at survives
  induction survives with
  | nil => cases whole
  | new other _ inductionHypothesis => exact (inductionHypothesis whole).new other
  | same other behind _ =>
    obtain ⟨-, rfl⟩ := List.cons.inj whole
    exact behind.new _
  | blanks _ behind _ =>
    obtain ⟨-, rfl⟩ := List.cons.inj whole
    exact behind
  | data before behind _ =>
    obtain ⟨-, rfl⟩ := List.cons.inj whole
    exact behind.longer _
  | expanded inside _ _ behind _ =>
    obtain ⟨-, rfl⟩ := List.cons.inj whole
    exact ((behind.new _).front inside).new _

/-- A run survives if what is between its outer blanks does. -/
theorem of_trim {run : List Char} (survives : Survives expands (.text (trim run) :: old) new) :
    Survives expands (.text run :: old) new := by
  generalize whole : Token.text (trim run) :: old = tokens at survives
  induction survives with
  | nil => cases whole
  | new token _ inductionHypothesis => exact (inductionHypothesis whole).new token
  | same token behind _ =>
    obtain ⟨rfl, rfl⟩ := List.cons.inj whole
    have inRun : Survives expands (.text run :: _) _ := .data [] (behind.new (.text []))
    rwa [List.nil_append, List.append_nil] at inRun
  | blanks blanks behind _ =>
    obtain ⟨same, rfl⟩ := List.cons.inj whole
    obtain rfl := Token.text.inj same
    refine .blanks (Text.blank_of_trim_eq_nil ?_) behind
    rw [← Text.trim_trim]
    exact Text.trim_eq_nil_iff.mpr blanks
  | data before behind _ =>
    obtain ⟨same, rfl⟩ := List.cons.inj whole
    obtain rfl := Token.text.inj same
    rw [Text.trim_trim]
    exact .data before behind
  | expanded => cases whole

end Survives

/-! ### Joined runs -/

/-- Tokens with the runs of data that stand side by side put together, when the data in `run` stand
right before them. -/
def joined (run : List Char) : List Token → List Token
  | [] => pending run
  | .text more :: rest => joined (run ++ more) rest
  | token :: rest => pending run ++ token :: joined [] rest

theorem joined_markup (run : List Char) {token : Token} (notText : ∀ run, token ≠ .text run)
    (rest : List Token) : joined run (token :: rest) = pending run ++ token :: joined [] rest := by
  cases token with
  | text more => exact absurd rfl (notText more)
  | _ => rfl

theorem joined_append (run : List Char) (first : List Token) {token : Token}
    (notText : ∀ run, token ≠ .text run) (rest : List Token) :
    joined run (first ++ token :: rest) = joined run first ++ token :: joined [] rest := by
  induction first generalizing run with
  | nil => exact joined_markup run notText rest
  | cons head others inductionHypothesis =>
    cases head with
    | text more => exact inductionHypothesis (run ++ more)
    | _ =>
      rw [List.cons_append, joined_markup run (by simp), joined_markup run (by simp),
        inductionHypothesis, List.append_assoc, List.cons_append]

/-- What stands before tokens goes to the front of their first run, if there is any data. -/
theorem exists_joined (tokens : List Token) :
    ∃ more rest, (∀ run, run ++ more ≠ [] → joined run tokens = .text (run ++ more) :: rest) ∧
      (more = [] → joined [] tokens = rest) := by
  induction tokens with
  | nil => exact ⟨[], [], fun run some => by simp_all [joined, pending], fun _ => rfl⟩
  | cons token rest inductionHypothesis =>
    by_cases isText : ∃ run, token = .text run
    · obtain ⟨own, rfl⟩ := isText
      obtain ⟨more, others, some, none⟩ := inductionHypothesis
      refine ⟨own ++ more, others, fun run nonempty => ?_, fun empty => ?_⟩
      · rw [joined, some _ (by rwa [List.append_assoc]), List.append_assoc]
      · obtain ⟨rfl, rfl⟩ := List.append_eq_nil_iff.mp empty
        exact none rfl
    · have notText : ∀ run, token ≠ .text run := fun run same => isText ⟨run, same⟩
      refine ⟨[], token :: joined [] rest, fun run some => ?_, fun _ => ?_⟩
      · rw [List.append_nil] at some ⊢
        rw [joined_markup run notText, pending, if_neg some, List.singleton_append]
      · exact joined_markup [] notText rest

/-- Legible tokens are read as they are, but for the runs that stand side by side. -/
theorem scan_joined {tokens : List Token} (legible : ∀ token ∈ tokens, token.Legible)
    {run : List Char} (noMarkup : '<' ∉ run) :
    scan (run ++ writtenOf tokens) = (joined run tokens, none) := by
  induction tokens generalizing run with
  | nil =>
    have read := Piece.scan_run noMarkup Piece.atMarkup_nil
    simpa [joined] using read
  | cons token rest inductionHypothesis =>
    obtain ⟨legibleToken, legibleRest⟩ := List.forall_mem_cons.mp legible
    by_cases isText : ∃ run, token = .text run
    · obtain ⟨more, rfl⟩ := isText
      have noMarkup' : '<' ∉ run ++ more := by
        rw [List.mem_append, not_or]
        exact ⟨noMarkup, legibleToken.2⟩
      rw [writtenOf_cons, Token.written, ← List.append_assoc, inductionHypothesis legibleRest
        noMarkup', joined]
    · have notText : ∀ run, token ≠ .text run := fun run same => isText ⟨run, same⟩
      have delimited : token.Delimited := by
        cases token with
        | text more => exact absurd rfl (notText more)
        | _ => exact legibleToken
      have behind := inductionHypothesis legibleRest (List.not_mem_nil (a := '<'))
      rw [List.nil_append] at behind
      rw [writtenOf_cons, Piece.scan_run_delimited noMarkup delimited notText, behind,
        joined_markup run notText]

namespace Survives

variable {expands : List Char → List Char → Prop} {old new : List Token}

/-- Data survive in front of joined tokens if the tokens behind them survive in what is left. -/
theorem data_joined {run before rest : List Char}
    (behind : Survives expands old (joined rest new)) :
    Survives expands (.text run :: old) (joined (before ++ trim run ++ rest) new) := by
  obtain ⟨more, others, some, none⟩ := exists_joined new
  by_cases nothing : before ++ trim run ++ rest ++ more = []
  · simp only [List.append_eq_nil_iff] at nothing
    obtain ⟨⟨⟨rfl, noData⟩, rfl⟩, -⟩ := nothing
    rw [noData]
    exact .blanks (Text.blank_of_trim_eq_nil noData) behind
  · rw [some _ nothing, List.append_assoc]
    refine .data before ?_
    by_cases left : rest ++ more = []
    · obtain ⟨rfl, rfl⟩ := List.append_eq_nil_iff.mp left
      rw [none rfl] at behind
      exact behind.new _
    · rwa [some _ left] at behind

/-- What survives still does when the new runs that stand side by side are joined. -/
theorem joined (survives : Survives expands old new) (run : List Char) :
    Survives expands old (joined run new) := by
  induction survives generalizing run with
  | nil => exact none _
  | new token _ inductionHypothesis =>
    by_cases isText : ∃ run, token = .text run
    · obtain ⟨more, rfl⟩ := isText
      exact inductionHypothesis (run ++ more)
    · rw [joined_markup run fun run same => isText ⟨run, same⟩]
      exact ((inductionHypothesis []).new token).front _
  | same token _ inductionHypothesis =>
    by_cases isText : ∃ run, token = .text run
    · obtain ⟨own, rfl⟩ := isText
      obtain ⟨lead, tail, split⟩ := Text.exists_eq_append_trim own
      have inRun := @data_joined _ _ _ own (run ++ lead) tail (inductionHypothesis tail)
      rwa [List.append_assoc, List.append_assoc, ← split] at inRun
    · rw [joined_markup run fun run same => isText ⟨run, same⟩]
      exact ((inductionHypothesis []).same token).front _
  | blanks blanks _ inductionHypothesis => exact .blanks blanks (inductionHypothesis run)
  | @data old new own before rest _ inductionHypothesis =>
    have left : Survives expands old (Markup.joined rest new) := inductionHypothesis []
    have inRun := @data_joined _ _ _ own (run ++ before) rest left
    rwa [List.append_assoc, List.append_assoc, ← List.append_assoc before] at inRun
  | expanded inside allowed sameName _ inductionHypothesis =>
    rw [joined_markup run (by simp), joined_append [] inside (by simp)]
    exact (Survives.expanded _ allowed sameName (inductionHypothesis [])).front _

end Survives

/-! ### Parts of tokens -/

/-- Characters of data, one by one. -/
def singles (chars : List Char) : List Token :=
  chars.map fun char => .text [char]

/-- The parts of a token at which edits may cut: the outer blanks of a run of data one by one, and
what is between them. Markup is whole. -/
def Token.parts : Token → List Token
  | .text run =>
    singles (run.takeWhile Text.isBlank) ++ (pending (trim run) ++
      singles ((Text.trimStart run).reverse.takeWhile Text.isBlank).reverse)
  | token => [token]

theorem Token.parts_markup {token : Token} (notText : ∀ run, token ≠ .text run) :
    token.parts = [token] := by
  cases token with
  | text run => exact absurd rfl (notText run)
  | _ => rfl

theorem writtenOf_singles (chars : List Char) : writtenOf (singles chars) = chars := by
  induction chars with
  | nil => rfl
  | cons char rest inductionHypothesis =>
    rw [singles, List.map_cons, writtenOf_cons, ← singles, inductionHypothesis]
    rfl

theorem Token.writtenOf_parts (token : Token) : writtenOf token.parts = token.written := by
  cases token with
  | text run =>
    have core : writtenOf (pending (trim run)) = trim run := by
      by_cases nothing : trim run = [] <;> simp [pending, nothing, Token.written]
    rw [parts, writtenOf_append, writtenOf_append, writtenOf_singles, writtenOf_singles, core,
      Text.takeWhile_append_trim, Token.written]
  | _ => exact List.append_nil _

/-- A part of a token that edits leave whole: it begins and ends with characters that are not
blank. -/
structure Token.Firm (token : Token) : Prop where
  head : ∃ first, token.written.head? = some first ∧ Text.isBlank first = false
  last : ∃ last, token.written.getLast? = some last ∧ Text.isBlank last = false

/-- A blank character of data. -/
def Token.Loose (token : Token) : Prop :=
  ∃ char, token = .text [char] ∧ Text.isBlank char = true

theorem Token.firm_markup {token : Token} (legible : token.Legible)
    (notText : ∀ run, token ≠ .text run) : token.Firm := by
  obtain ⟨content, brackets⟩ := legible.brackets notText
  exact ⟨⟨'<', by rw [brackets]; rfl, by decide⟩,
    ⟨'>', by rw [brackets, List.getLast?_concat], by decide⟩⟩

theorem parts_singles {chars : List Char} (blanks : blank chars = true) :
    ∀ part ∈ singles chars, part.Legible ∧ (part.Loose ∨ part.Firm) := by
  intro part member
  obtain ⟨char, inChars, rfl⟩ := List.mem_map.mp member
  have blankChar := List.all_eq_true.mp blanks char inChars
  refine ⟨⟨by simp, ?_⟩, Or.inl ⟨char, rfl, blankChar⟩⟩
  rw [List.mem_singleton]
  rintro rfl
  exact absurd blankChar (by decide)

/-- The parts of a legible token are legible, and loose or firm. -/
theorem Token.Legible.parts {token : Token} (legible : token.Legible) :
    ∀ part ∈ token.parts, part.Legible ∧ (part.Loose ∨ part.Firm) := by
  by_cases isText : ∃ run, token = .text run
  · obtain ⟨run, rfl⟩ := isText
    have core : ∀ part ∈ pending (trim run), part.Legible ∧ (part.Loose ∨ part.Firm) := by
      intro part member
      by_cases nothing : trim run = []
      · simp [pending, nothing] at member
      · rw [pending, if_neg nothing, List.mem_singleton] at member
        subst member
        have inRun : trim run ⊆ run := by
          intro char inside
          rw [← Text.takeWhile_append_trim run]
          exact List.mem_append_right _ (List.mem_append_left _ inside)
        obtain ⟨first, begins⟩ := Option.isSome_iff_exists.mp (List.isSome_head?.mpr nothing)
        obtain ⟨last, ends⟩ := Option.isSome_iff_exists.mp (List.getLast?_isSome.mpr nothing)
        exact ⟨⟨nothing, fun markup => legible.2 (inRun markup)⟩,
          Or.inr ⟨⟨first, begins, Text.not_blank_head?_trim begins⟩,
            ⟨last, ends, Text.not_blank_getLast?_trim ends⟩⟩⟩
    rw [Token.parts, List.forall_mem_append, List.forall_mem_append]
    refine ⟨parts_singles (Text.blank_takeWhile _), core, parts_singles ?_⟩
    rw [blank, List.all_reverse]
    exact Text.blank_takeWhile _
  · have notText : ∀ run, token ≠ .text run := fun run same => isText ⟨run, same⟩
    rw [Token.parts_markup notText]
    simpa using ⟨legible, Or.inr (Token.firm_markup legible notText)⟩

theorem Survives.drop_singles {expands : List Char → List Char → Prop} {old new : List Token}
    {chars : List Char} (survives : Survives expands (singles chars ++ old) new) :
    Survives expands old new := by
  induction chars with
  | nil => exact survives
  | cons char rest inductionHypothesis => exact inductionHypothesis survives.drop

/-- Tokens survive if their parts do. -/
theorem Survives.of_parts {expands : List Char → List Char → Prop} {tokens new : List Token}
    (survives : Survives expands (tokens.flatMap Token.parts) new) :
    Survives expands tokens new := by
  induction tokens generalizing new with
  | nil => exact survives
  | cons token rest inductionHypothesis =>
    have whole : Survives expands (token.parts ++ rest) new :=
      survives.behind_append fun _ => inductionHypothesis
    cases token with
    | text run =>
      rw [Token.parts, List.append_assoc, List.append_assoc] at whole
      have core := whole.drop_singles
      by_cases nothing : trim run = []
      · refine .blanks (Text.blank_of_trim_eq_nil nothing) ?_
        rw [pending, if_pos nothing, List.nil_append] at core
        exact core.drop_singles
      · rw [pending, if_neg nothing] at core
        exact of_trim (core.behind_cons fun _ => drop_singles)
    | _ => exact whole

end PomLens.Markup
