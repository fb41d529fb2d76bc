/-
This file proves that markup ends by itself: where a token other than character data stops
depends on the token alone and not on what stands behind it.

A scanner that looks for an end can only be stopped by what it has passed, so a token that was
read once is read again in front of any other text (`delimited_of_next`). Texts can therefore
be cut and joined at tokens. Tags whose names are letters end by themselves too, which makes
the tags that a remedy writes readable wherever they are put (`delimited_opening`).
-/

import Mathlib.Data.List.TakeWhile
import Mathlib.Tactic.ByContra
import PomLens.Markup.Token

namespace PomLens.Markup

/-! ### Looking for an end again -/

/-- The end of a tag stays where it is when the text behind it is exchanged. -/
theorem untilTagEnd?_again {quote : Option Char} {text before after : List Char}
    (found : untilTagEnd? quote text = some (before, after)) (other : List Char) :
    untilTagEnd? quote (before ++ '>' :: other) = some (before, other) := by
  induction text generalizing quote before with
  | nil => simp [untilTagEnd?] at found
  | cons char rest inductionHypothesis =>
    rw [untilTagEnd?] at found
    split at found
    · next ends =>
      obtain ⟨rfl, rfl⟩ : [] = before ∧ rest = after := by simpa using found
      simp [untilTagEnd?, ends.1]
    · next goesOn =>
      obtain ⟨⟨first, second⟩, inner, same⟩ := Option.map_eq_some_iff.mp found
      simp only [Prod.mk.injEq] at same
      obtain ⟨rfl, rfl⟩ := same
      rw [List.cons_append, untilTagEnd?, if_neg goesOn, inductionHypothesis inner]
      rfl

/-- The same for the other kinds of markup. What was seen before the text is part of what
stands before the end. -/
theorem untilClose?_again {closes : List Char → Bool} {seen text before after : List Char}
    (found : untilClose? closes seen text = some (before, after)) :
    ∃ inner, before = seen.reverse ++ inner ∧ text = inner ++ '>' :: after ∧
      ∀ other, untilClose? closes seen (inner ++ '>' :: other) = some (before, other) := by
  induction text generalizing seen with
  | nil => simp [untilClose?] at found
  | cons char rest inductionHypothesis =>
    rw [untilClose?] at found
    split at found
    · next ends =>
      obtain ⟨rfl, rfl⟩ : seen.reverse = before ∧ rest = after := by simpa using found
      simp only [Bool.and_eq_true, decide_eq_true_eq] at ends
      refine ⟨[], by simp, by simp [ends.1], fun other => ?_⟩
      simp [untilClose?, ends.2]
    · next goesOn =>
      obtain ⟨inner, whole, passed, again⟩ := inductionHypothesis found
      refine ⟨char :: inner, by simp [whole], by simp [passed], fun other => ?_⟩
      rw [List.cons_append, untilClose?, if_neg goesOn]
      exact again other

/-- What follows an end that was found from the start of a text may be exchanged. -/
theorem untilClose?_exchange {closes : List Char → Bool} {text content after : List Char}
    (found : untilClose? closes [] text = some (content, after)) (other : List Char) :
    untilClose? closes [] (content ++ '>' :: other) = some (content, other) := by
  obtain ⟨inner, rfl, _, again⟩ := untilClose?_again found
  simpa using again other

/-! ### Delimited tokens -/

/-- The token is read from its own characters, whatever stands behind them. -/
def Token.Delimited (token : Token) : Prop :=
  ∃ first rest, token.written = first :: rest ∧
    ∀ after, next first (rest ++ after) = .ok (token, after)

theorem literalStart_eq : literalStart = ['!', '[', 'C', 'D', 'A', 'T', 'A', '['] := by decide

theorem commentStart_eq : commentStart = ['!', '-', '-'] := by decide

theorem doctypeStart_eq : doctypeStart = ['!', 'd', 'o', 'c', 't', 'y', 'p', 'e'] := by decide

/-- The beginning of a text is that of its first part, if that is long enough. -/
theorem starts_of_append {first second : Char} {tail content rest : List Char}
    (whole : first :: second :: tail = content ++ rest) (long : 2 ≤ content.length) :
    ∃ more, content = first :: second :: more := by
  match content with
  | [] => simp at long
  | [_] => simp at long
  | one :: two :: more =>
    simp only [List.cons_append, List.cons.injEq] at whole
    exact ⟨more, by rw [whole.1, whole.2.1]⟩

/-- A document type is longer than its exclamation mark and letter. -/
theorem two_le_of_doctype {content name : List Char}
    (started : Text.afterPrefix? doctypeStart (content.map Char.toLower) = some name) :
    2 ≤ content.length := by
  have lengths := congrArg List.length (Text.afterPrefix?_eq_some_iff.mp started)
  simp only [List.length_map, List.length_append, doctypeStart_eq, List.length_cons] at lengths
  omega

/-! A declaration is read again in front of any other text: one lemma for each of its kinds, which
the two characters behind the angle bracket tell apart. -/

theorem readLiteral_again {tail after : List Char} {token : Token}
    (read : readDeclaration ('!' :: '[' :: tail) = .ok (token, after)) :
    ∃ more, token.written = '<' :: '!' :: '[' :: more ++ ['>'] ∧
      ∀ other, readDeclaration ('!' :: '[' :: more ++ '>' :: other) = .ok (token, other) := by
  simp only [readDeclaration] at read
  split at read
  · cases read
  · next content rest found =>
    split at read
    · cases read
    · next inner started =>
      split at read
      · cases read
      · next core ended =>
        cases read
        have whole := Text.afterPrefix?_eq_some_iff.mp started
        obtain ⟨more, rfl⟩ : ∃ more, content = '!' :: '[' :: more :=
          ⟨_, by rw [whole, literalStart_eq]; rfl⟩
        refine ⟨more, ?_, fun other => ?_⟩
        · rw [whole, Text.beforeSuffix?_eq_some_iff.mp ended]
          simp [Token.written]
        · have again := untilClose?_exchange found other
          simp only [readDeclaration, List.cons_append] at again ⊢
          rw [again]
          simp only [started, ended]
          rfl

theorem readComment_again {tail after : List Char} {token : Token}
    (read : readDeclaration ('!' :: '-' :: tail) = .ok (token, after)) :
    ∃ more, token.written = '<' :: '!' :: '-' :: more ++ ['>'] ∧
      ∀ other, readDeclaration ('!' :: '-' :: more ++ '>' :: other) = .ok (token, other) := by
  simp only [readDeclaration] at read
  split at read
  · cases read
  · next content rest found =>
    split at read
    · cases read
    · next started =>
      cases read
      obtain ⟨name, begins⟩ : ∃ name, content = commentStart ++ name := by
        cases left : Text.afterPrefix? commentStart content with
        | none => simp [left] at started
        | some name => exact ⟨name, Text.afterPrefix?_eq_some_iff.mp left⟩
      obtain ⟨more, rfl⟩ : ∃ more, content = '!' :: '-' :: more :=
        ⟨_, by rw [begins, commentStart_eq]; rfl⟩
      refine ⟨more, rfl, fun other => ?_⟩
      have again := untilClose?_exchange found other
      simp only [readDeclaration, List.cons_append] at again ⊢
      rw [again]
      simp only [if_neg started]
      rfl

theorem readDoctype_again {letter : Char} (isLetter : letter = 'D' ∨ letter = 'd')
    {tail after : List Char} {token : Token}
    (read : readDeclaration ('!' :: letter :: tail) = .ok (token, after)) :
    ∃ more, token.written = '<' :: '!' :: letter :: more ++ ['>'] ∧
      ∀ other, readDeclaration ('!' :: letter :: more ++ '>' :: other) = .ok (token, other) := by
  rcases isLetter with rfl | rfl
  all_goals
    simp only [readDeclaration] at read
    split at read
    · cases read
    · next content rest found =>
      split at read
      · cases read
      · next name started =>
        split at read
        · cases read
        · next named =>
          cases read
          obtain ⟨more, rfl⟩ := starts_of_append (untilClose?_written found)
            (two_le_of_doctype started)
          refine ⟨more, rfl, fun other => ?_⟩
          have again := untilClose?_exchange found other
          simp only [readDeclaration, List.cons_append] at again ⊢
          rw [again]
          simp only [started, if_neg named]
          rfl

/-- A declaration is read again in front of any other text. What stands between its angle
brackets starts with the exclamation mark that made it a declaration. -/
theorem readDeclaration_again {text after : List Char} {token : Token}
    (read : readDeclaration text = .ok (token, after)) :
    ∃ content, token.written = '<' :: '!' :: content ++ ['>'] ∧
      ∀ other, readDeclaration ('!' :: content ++ '>' :: other) = .ok (token, other) := by
  unfold readDeclaration at read
  simp only at read
  split at read
  · obtain ⟨more, written, again⟩ := readLiteral_again read
    exact ⟨_, written, again⟩
  · obtain ⟨more, written, again⟩ := readComment_again read
    exact ⟨_, written, again⟩
  · obtain ⟨more, written, again⟩ := readDoctype_again (Or.inl rfl) read
    exact ⟨_, written, again⟩
  · obtain ⟨more, written, again⟩ := readDoctype_again (Or.inr rfl) read
    exact ⟨_, written, again⟩
  · cases read

theorem readInstruction_again {tail after : List Char} {token : Token}
    (read : readInstruction ('?' :: tail) = .ok (token, after)) :
    ∃ content, token.written = '<' :: '?' :: content ++ ['>'] ∧
      ∀ other, readInstruction ('?' :: content ++ '>' :: other) = .ok (token, other) := by
  unfold readInstruction at read
  split at read
  · cases read
  · next content rest found =>
    split at read
    · cases read
    · next long =>
      cases read
      obtain ⟨more, rfl⟩ : ∃ more, content = '?' :: more := by
        have whole := untilClose?_written found
        match content with
        | [] => simp at long
        | first :: more =>
          simp only [List.reverse_nil, List.nil_append, List.cons_append, List.cons.injEq] at whole
          exact ⟨more, by rw [whole.1]⟩
      refine ⟨more, rfl, fun other => ?_⟩
      have again := untilClose?_exchange found other
      rw [readInstruction, again]
      simp only [if_neg long]
      rfl

/-- The tag between whose angle brackets `body` stands. -/
def Token.ofTag : List Char → Token
  | '/' :: body => .closing body
  | body =>
    match Text.beforeSuffix? ['/'] body with
    | some inner => .selfClosing inner
    | none => .opening body

theorem Token.written_ofTag (body : List Char) :
    (Token.ofTag body).written = '<' :: body ++ ['>'] := by
  unfold Token.ofTag
  split
  · rfl
  · split
    · next inner ended =>
      rw [Text.beforeSuffix?_eq_some_iff.mp ended]
      simp [Token.written]
    · rfl

theorem Token.ofTag_of_not_closing {body : List Char}
    (notClosing : ∀ inner, body = '/' :: inner → False) :
    Token.ofTag body =
      match Text.beforeSuffix? ['/'] body with
      | some inner => .selfClosing inner
      | none => .opening body := by
  unfold Token.ofTag
  split
  · next inner => exact (notClosing inner rfl).elim
  · rfl

/-- Reading a tag is looking for its end. -/
theorem readTag_eq_ok_iff {text after : List Char} {token : Token} :
    readTag text = .ok (token, after) ↔
      ∃ body, untilTagEnd? none text = some (body, after) ∧ token = Token.ofTag body := by
  unfold readTag
  constructor
  · intro read
    split at read
    · cases read
    · next body rest found =>
      cases read
      exact ⟨'/' :: body, found, rfl⟩
    · next body rest notClosing found =>
      refine ⟨body, ?_⟩
      rw [Token.ofTag_of_not_closing notClosing]
      cases ended : Text.beforeSuffix? ['/'] body with
      | some inner =>
        rw [ended] at read
        cases read
        exact ⟨found, rfl⟩
      | none =>
        rw [ended] at read
        cases read
        exact ⟨found, rfl⟩
  · rintro ⟨body, found, rfl⟩
    rw [found]
    split
    · next same => cases same
    · next inner rest same =>
      cases same
      rfl
    · next other rest notClosing same =>
      cases same
      rw [Token.ofTag_of_not_closing notClosing]
      cases Text.beforeSuffix? ['/'] body with
      | some inner => rfl
      | none => rfl

theorem readTag_again {text after : List Char} {token : Token}
    (read : readTag text = .ok (token, after)) :
    ∃ body, text = body ++ '>' :: after ∧ token = Token.ofTag body ∧
      ∀ other, readTag (body ++ '>' :: other) = .ok (token, other) := by
  obtain ⟨body, found, rfl⟩ := readTag_eq_ok_iff.mp read
  exact ⟨body, untilTagEnd?_written found, rfl,
    fun other => readTag_eq_ok_iff.mpr ⟨body, untilTagEnd?_again found other, rfl⟩⟩

/-- A token that is not character data is read again in front of any text. -/
theorem delimited_of_next {first : Char} {rest after : List Char} {token : Token}
    (read : next first rest = .ok (token, after)) (markup : first = '<') :
    token.Delimited := by
  subst markup
  simp only [next, ne_eq, not_true_eq_false, ↓reduceIte] at read
  split at read
  · obtain ⟨content, written, again⟩ := readDeclaration_again read
    refine ⟨'<', '!' :: content ++ ['>'], written, fun other => ?_⟩
    have same := again other
    simp only [List.cons_append, List.append_assoc, List.nil_append] at same ⊢
    simpa only [next, ne_eq, not_true_eq_false, ↓reduceIte] using same
  · obtain ⟨content, written, again⟩ := readInstruction_again read
    refine ⟨'<', '?' :: content ++ ['>'], written, fun other => ?_⟩
    have same := again other
    simp only [List.cons_append, List.append_assoc, List.nil_append] at same ⊢
    simpa only [next, ne_eq, not_true_eq_false, ↓reduceIte] using same
  · next notDeclaration notInstruction =>
    obtain ⟨body, whole, rfl, again⟩ := readTag_again read
    refine ⟨'<', body ++ ['>'], Token.written_ofTag body, fun other => ?_⟩
    rw [List.append_assoc, List.singleton_append, ← again other]
    -- What follows the angle bracket is the tag's own, so it is still no other markup.
    simp only [next, ne_eq, not_true_eq_false, ↓reduceIte]
    match body with
    | [] => rfl
    | head :: tail =>
      simp only [List.cons_append] at whole ⊢
      split
      · next more same =>
        cases same
        exact (notDeclaration _ whole).elim
      · next more same =>
        cases same
        exact (notInstruction _ whole).elim
      · rfl

/-- Markup stands between two angle brackets. -/
theorem written_of_delimited {token : Token} (delimited : token.Delimited)
    (notText : ∀ run, token ≠ .text run) :
    ∃ content, token.written = '<' :: content ++ ['>'] := by
  obtain ⟨first, rest, written, again⟩ := delimited
  have read := again []
  by_cases markup : first = '<'
  · subst markup
    simp only [next, ne_eq, not_true_eq_false, ↓reduceIte] at read
    split at read
    · obtain ⟨content, whole, -⟩ := readDeclaration_again read
      exact ⟨'!' :: content, whole⟩
    · next same =>
      rw [same] at read
      obtain ⟨content, whole, -⟩ := readInstruction_again read
      exact ⟨'?' :: content, whole⟩
    · obtain ⟨body, -, rfl, -⟩ := readTag_again read
      exact ⟨body, Token.written_ofTag body⟩
  · simp only [next, ne_eq, markup, not_false_eq_true, ↓reduceIte] at read
    injection read with whole
    injection whole with text
    exact absurd text.symm (notText _)

/-! ### Tags with plain names -/

/-- A name of letters, at least one. -/
def plainName (name : List Char) : Bool :=
  name ≠ [] && name.all Char.isAlpha

/-- A tag with a plain name ends at its first angle bracket. -/
theorem untilTagEnd?_letters {name : List Char} (letters : name.all Char.isAlpha)
    (after : List Char) : untilTagEnd? none (name ++ '>' :: after) = some (name, after) := by
  induction name with
  | nil => simp [untilTagEnd?]
  | cons letter rest inductionHypothesis =>
    simp only [List.all_cons, Bool.and_eq_true] at letters
    have notEnd : letter ≠ '>' := by
      rintro rfl
      exact absurd letters.1 (by decide)
    have notSingle : letter ≠ '\'' := by
      rintro rfl
      exact absurd letters.1 (by decide)
    have notDouble : letter ≠ '"' := by
      rintro rfl
      exact absurd letters.1 (by decide)
    simp [untilTagEnd?, quoteAfter, notEnd, notSingle, notDouble, inductionHypothesis letters.2]

theorem isAlpha_of_mem {name : List Char} (plain : plainName name) {char : Char}
    (member : char ∈ name) : char.isAlpha := by
  simp only [plainName, Bool.and_eq_true, List.all_eq_true] at plain
  exact plain.2 char member

theorem ofTag_plainName {name : List Char} (plain : plainName name) :
    Token.ofTag name = .opening name := by
  have noSlash : '/' ∉ name := fun member => absurd (isAlpha_of_mem plain member) (by decide)
  rw [Token.ofTag_of_not_closing]
  · have noEnd : Text.beforeSuffix? ['/'] name = none := by
      rw [Option.eq_none_iff_forall_ne_some]
      intro inner ended
      rw [Text.beforeSuffix?_eq_some_iff] at ended
      exact noSlash (by simp [ended])
    rw [noEnd]
  · intro inner same
    exact noSlash (by simp [same])

theorem delimited_opening {name : List Char} (plain : plainName name) :
    (Token.opening name).Delimited := by
  refine ⟨'<', name ++ ['>'], rfl, fun after => ?_⟩
  have read : readTag (name ++ '>' :: after) = .ok (.opening name, after) := by
    refine readTag_eq_ok_iff.mpr ⟨name, untilTagEnd?_letters ?_ after, ?_⟩
    · exact List.all_eq_true.mpr fun char member => isAlpha_of_mem plain member
    · exact (ofTag_plainName plain).symm
  rw [List.append_assoc, List.singleton_append, ← read]
  simp only [next, ne_eq, not_true_eq_false, ↓reduceIte]
  match name with
  | [] => rfl
  | head :: tail =>
    have letter := isAlpha_of_mem plain List.mem_cons_self
    simp only [List.cons_append]
    split
    · next same =>
      cases same
      exact absurd letter (by decide)
    · next same =>
      cases same
      exact absurd letter (by decide)
    · rfl

theorem delimited_closing {name : List Char} (plain : plainName name) :
    (Token.closing name).Delimited := by
  refine ⟨'<', '/' :: (name ++ ['>']), rfl, fun after => ?_⟩
  have letters : name.all Char.isAlpha :=
    List.all_eq_true.mpr fun char member => isAlpha_of_mem plain member
  have found : untilTagEnd? none ('/' :: (name ++ '>' :: after)) =
      some ('/' :: name, after) := by
    simp [untilTagEnd?, quoteAfter, untilTagEnd?_letters letters]
  have read : readTag ('/' :: (name ++ '>' :: after)) = .ok (.closing name, after) :=
    readTag_eq_ok_iff.mpr ⟨'/' :: name, found, rfl⟩
  simpa [next] using read

theorem tagBlank_of_mem {name : List Char} (plain : plainName name) {char : Char}
    (member : char ∈ name) : isTagBlank char = false := by
  have letter := isAlpha_of_mem plain member
  by_contra blank
  simp only [isTagBlank, Bool.not_eq_false, Bool.or_eq_true, beq_iff_eq] at blank
  rcases blank with ((rfl | rfl) | rfl) | rfl <;> exact absurd letter (by decide)

theorem tagName_plainName {name : List Char} (plain : plainName name) :
    tagName name = String.ofList name := by
  rw [tagName, List.takeWhile_eq_self_iff.mpr]
  intro char member
  simp [tagBlank_of_mem plain member]

theorem closingName_plainName {name : List Char} (plain : plainName name) :
    closingName name = String.ofList name := by
  have notBlank : ¬ name.all isTagBlank := by
    intro blank
    cases name with
    | nil => simp [plainName] at plain
    | cons head tail =>
      have headBlank := List.all_eq_true.mp blank head List.mem_cons_self
      simp [tagBlank_of_mem plain List.mem_cons_self] at headBlank
  rw [closingName, if_neg notBlank, Text.dropEndWhile]
  have kept : name.reverse.dropWhile isTagBlank = name.reverse := by
    cases reversed : name.reverse with
    | nil => rfl
    | cons last rest =>
      have member : last ∈ name := List.mem_reverse.mp (by simp [reversed])
      simp [tagBlank_of_mem plain member]
  rw [kept, List.reverse_reverse]

end PomLens.Markup
