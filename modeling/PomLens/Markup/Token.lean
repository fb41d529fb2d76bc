/-
This file divides markup into tokens.

A token is a tag, a run of character data, a section of literal data, or something that
carries no content: a comment, an instruction or a declaration. Every token knows the exact
characters it was read from, and the tokens of a text put together are the text again
(`next_source`); the place of a token is therefore the size of what stands before it.

Nothing is decoded and little is checked. A greater-than sign may stand in character data,
and a tag may have any name, even an empty one. What is checked is that each token ends.
-/

import PomLens.Text.Blank

namespace PomLens.Markup

/-! ### Tokens -/

inductive Token
  /-- Character data between two pieces of markup. -/
  | text (run : List Char)
  /-- The content of a literal section. -/
  | literal (content : List Char)
  /-- A comment, instruction, declaration or document type, as written. -/
  | aside (written : List Char)
  /-- What stands between the angle brackets of an opening tag. -/
  | opening (body : List Char)
  /-- What stands between `<` and `/>`. -/
  | selfClosing (body : List Char)
  /-- What stands between `</` and `>`. -/
  | closing (body : List Char)
  deriving DecidableEq, Repr

/-- How a literal section starts, after its angle bracket. -/
def literalStart : List Char := "![CDATA[".toList

/-- How a comment starts, after its angle bracket. -/
def commentStart : List Char := "!--".toList

/-- How a document type starts, after its angle bracket, in lower case. -/
def doctypeStart : List Char := "!doctype".toList

/-- The characters that a token was read from. -/
def Token.written : Token → List Char
  | .text run => run
  | .literal content => '<' :: literalStart ++ content ++ "]]>".toList
  | .aside written => written
  | .opening body => '<' :: body ++ ['>']
  | .selfClosing body => '<' :: body ++ ['/', '>']
  | .closing body => '<' :: '/' :: body ++ ['>']

/-- The blanks that end a name inside a tag. -/
def isTagBlank (char : Char) : Bool :=
  char == ' ' || char == '\t' || char == '\r' || char == '\n'

/-- The name in an opening or self-closing tag: all before the first blank. -/
def tagName (body : List Char) : String :=
  String.ofList (body.takeWhile fun char => !isTagBlank char)

/-- The name in a closing tag: all but the blanks at the end. A name of blanks alone is kept
as it is. -/
def closingName (body : List Char) : String :=
  String.ofList (if body.all isTagBlank then body else Text.dropEndWhile isTagBlank body)

/-! ### Faults -/

/-- Why no token can be read. -/
inductive SyntaxFault
  /-- An exclamation mark that starts nothing known. -/
  | unknownMarkup
  | unclosedInstruction
  | unclosedComment
  | unclosedDoctype
  | unclosedLiteral
  | unclosedTag
  /-- A document type without a name. -/
  | namelessDoctype
  /-- A closing tag with no element open. -/
  | closesNothing (name : String)
  deriving DecidableEq, Repr

def SyntaxFault.message : SyntaxFault → String
  | .unknownMarkup => "syntax error: unknown or missed symbol in markup"
  | .unclosedInstruction =>
    "syntax error: processing instruction or xml declaration not closed: `?>` not found before end of input"
  | .unclosedComment => "syntax error: comment not closed: `-->` not found before end of input"
  | .unclosedDoctype => "syntax error: DOCTYPE not closed: `>` not found before end of input"
  | .unclosedLiteral => "syntax error: CDATA not closed: `]]>` not found before end of input"
  | .unclosedTag => "syntax error: tag not closed: `>` not found before end of input"
  | .namelessDoctype =>
    "ill-formed document: `<!DOCTYPE>` declaration does not contain a name of a document type"
  | .closesNothing name =>
    s!"ill-formed document: close tag `</{name}>` does not match any open tag"

/-- A fault together with the characters passed when it was found. -/
structure Failure where
  passed : List Char
  fault : SyntaxFault
  deriving DecidableEq, Repr

/-! ### Finding where markup ends -/

/-- The quote that is open behind a character, given the one open before it. -/
def quoteAfter (quote : Option Char) (char : Char) : Option Char :=
  match quote with
  | none => if char = '\'' ∨ char = '"' then some char else none
  | some mark => if char = mark then none else some mark

/-- The text before and after the first `>` that stands outside quotes. `quote` is the quote
that is open at the start. -/
def untilTagEnd? (quote : Option Char) : List Char → Option (List Char × List Char)
  | [] => none
  | char :: rest =>
    if quote = none ∧ char = '>' then some ([], rest)
    else
      (untilTagEnd? (quoteAfter quote char) rest).map fun (before, after) =>
        (char :: before, after)

/-- The text before and after the first `>` at which `closes` holds of what was read so far,
latest character first. What was read before the start is `seen`. -/
def untilClose? (closes : List Char → Bool) (seen : List Char) :
    List Char → Option (List Char × List Char)
  | [] => none
  | char :: rest =>
    if char = '>' && closes seen then some (seen.reverse, rest)
    else untilClose? closes (char :: seen) rest

/-- A literal section closes after two square brackets. -/
def closesLiteral : List Char → Bool
  | ']' :: ']' :: _ => true
  | _ => false

/-- A comment closes after two dashes that are not those that opened it. -/
def closesComment : List Char → Bool
  | '-' :: '-' :: before => 3 ≤ before.length
  | _ => false

/-- A document type closes where every angle bracket inside it is closed. -/
def closesDoctype (seen : List Char) : Bool :=
  seen.count '<' == seen.count '>'

/-- An instruction closes after a question mark. -/
def closesInstruction : List Char → Bool
  | '?' :: _ => true
  | _ => false

theorem untilTagEnd?_written {quote : Option Char} {text before after : List Char}
    (found : untilTagEnd? quote text = some (before, after)) : text = before ++ '>' :: after := by
  induction text generalizing quote before with
  | nil => simp [untilTagEnd?] at found
  | cons char rest ih =>
    rw [untilTagEnd?] at found
    split at found
    · next ends =>
      obtain ⟨rfl, rfl⟩ : [] = before ∧ rest = after := by simpa using found
      simp [ends.2]
    · obtain ⟨⟨first, second⟩, inner, same⟩ := Option.map_eq_some_iff.mp found
      simp only [Prod.mk.injEq] at same
      obtain ⟨rfl, rfl⟩ := same
      simp [ih inner]

theorem untilClose?_written {closes : List Char → Bool} {seen text before after : List Char}
    (found : untilClose? closes seen text = some (before, after)) :
    seen.reverse ++ text = before ++ '>' :: after := by
  induction text generalizing seen with
  | nil => simp [untilClose?] at found
  | cons char rest ih =>
    rw [untilClose?] at found
    split at found
    · next ends =>
      obtain ⟨rfl, rfl⟩ : seen.reverse = before ∧ rest = after := by simpa using found
      simp_all
    · simpa using ih found

/-! ### Reading one token -/

/-- Reads a comment, a literal section or a document type from the exclamation mark on. -/
def readDeclaration (text : List Char) : Except Failure (Token × List Char) :=
  let whole := '<' :: text
  match text with
  | '!' :: '[' :: _ =>
    match untilClose? closesLiteral [] text with
    | none => throw ⟨whole, .unclosedLiteral⟩
    | some (content, rest) =>
      match Text.afterPrefix? literalStart content with
      | none => throw ⟨'<' :: content ++ ['>'], .unclosedLiteral⟩
      | some inner =>
        match Text.beforeSuffix? [']', ']'] inner with
        | none => throw ⟨'<' :: content ++ ['>'], .unclosedLiteral⟩
        | some inner => return (.literal inner, rest)
  | '!' :: '-' :: _ =>
    match untilClose? closesComment [] text with
    | none => throw ⟨whole, .unclosedComment⟩
    | some (content, rest) =>
      if (Text.afterPrefix? commentStart content).isNone then
        throw ⟨'<' :: content ++ ['>'], .unclosedComment⟩
      else return (.aside ('<' :: content ++ ['>']), rest)
  | '!' :: 'D' :: _ | '!' :: 'd' :: _ =>
    match untilClose? closesDoctype [] text with
    | none => throw ⟨whole, .unclosedDoctype⟩
    | some (content, rest) =>
      match Text.afterPrefix? doctypeStart (content.map Char.toLower) with
      | none => throw ⟨'<' :: content ++ ['>'], .unclosedDoctype⟩
      | some name =>
        if name.all isTagBlank then throw ⟨'<' :: content ++ ['>'], .namelessDoctype⟩
        else return (.aside ('<' :: content ++ ['>']), rest)
  | _ => throw ⟨['<'], .unknownMarkup⟩

/-- Reads an instruction from the question mark on. -/
def readInstruction (text : List Char) : Except Failure (Token × List Char) :=
  match untilClose? closesInstruction [] text with
  | none => throw ⟨'<' :: text, .unclosedInstruction⟩
  | some (content, rest) =>
    if content.length ≤ 1 then throw ⟨'<' :: content ++ ['>'], .unclosedInstruction⟩
    else return (.aside ('<' :: content ++ ['>']), rest)

/-- Reads a tag from what follows its angle bracket. -/
def readTag (text : List Char) : Except Failure (Token × List Char) :=
  match untilTagEnd? none text with
  | none => throw ⟨'<' :: text, .unclosedTag⟩
  | some ('/' :: body, rest) => return (.closing body, rest)
  | some (body, rest) =>
    match Text.beforeSuffix? ['/'] body with
    | some inner => return (.selfClosing inner, rest)
    | none => return (.opening body, rest)

/-- Reads the first token of a text that starts with `first`. -/
def next (first : Char) (rest : List Char) : Except Failure (Token × List Char) :=
  if first ≠ '<' then
    return (.text (first :: rest.takeWhile (· ≠ '<')), rest.dropWhile (· ≠ '<'))
  else
    match rest with
    | '!' :: _ => readDeclaration rest
    | '?' :: _ => readInstruction rest
    | _ => readTag rest

theorem readDeclaration_written {text after : List Char} {token : Token}
    (read : readDeclaration text = .ok (token, after)) : '<' :: text = token.written ++ after := by
  unfold readDeclaration at read
  simp only at read
  split at read
  · split at read
    · cases read
    · next content rest found =>
      split at read
      · cases read
      · next inner started =>
        split at read
        · cases read
        · next core ended =>
          cases read
          have whole := untilClose?_written found
          rw [Text.afterPrefix?_eq_some_iff.mp started,
            Text.beforeSuffix?_eq_some_iff.mp ended] at whole
          simp only [List.reverse_nil, List.nil_append] at whole
          simp [whole, Token.written]
  · split at read
    · cases read
    · next content rest found =>
      split at read
      · cases read
      · cases read
        simpa [Token.written] using untilClose?_written found
  · split at read
    · cases read
    · next content rest found =>
      split at read
      · cases read
      · split at read
        · cases read
        · cases read
          simpa [Token.written] using untilClose?_written found
  · split at read
    · cases read
    · next content rest found =>
      split at read
      · cases read
      · split at read
        · cases read
        · cases read
          simpa [Token.written] using untilClose?_written found
  · cases read

theorem readInstruction_written {text after : List Char} {token : Token}
    (read : readInstruction text = .ok (token, after)) : '<' :: text = token.written ++ after := by
  unfold readInstruction at read
  split at read
  · cases read
  · next content rest found =>
    split at read
    · cases read
    · cases read
      simpa [Token.written] using untilClose?_written found

theorem readTag_written {text after : List Char} {token : Token}
    (read : readTag text = .ok (token, after)) : '<' :: text = token.written ++ after := by
  unfold readTag at read
  split at read
  · cases read
  · next body rest found =>
    cases read
    simpa [Token.written] using untilTagEnd?_written found
  · next body rest _ found =>
    split at read
    · next inner ended =>
      cases read
      rw [untilTagEnd?_written found, Text.beforeSuffix?_eq_some_iff.mp ended]
      simp [Token.written]
    · cases read
      simpa [Token.written] using untilTagEnd?_written found

/-- A token and what follows it are the text that was read. -/
theorem next_written {first : Char} {rest after : List Char} {token : Token}
    (read : next first rest = .ok (token, after)) : first :: rest = token.written ++ after := by
  unfold next at read
  split at read
  · cases read
    simp [Token.written]
  · next markup =>
    simp only [ne_eq, Decidable.not_not] at markup
    subst markup
    split at read
    · exact readDeclaration_written read
    · exact readInstruction_written read
    · exact readTag_written read

/-! ### Reading a whole text -/

theorem readDeclaration_starts {text after : List Char} {token : Token}
    (read : readDeclaration text = .ok (token, after)) : token.written.head? = some '<' := by
  unfold readDeclaration at read
  simp only at read
  repeat' split at read
  all_goals cases read
  all_goals rfl

/-- Every token reads at least one character. -/
theorem Token.written_ne_nil {first : Char} {rest after : List Char} {token : Token}
    (read : next first rest = .ok (token, after)) : token.written ≠ [] := by
  unfold next at read
  split at read
  · cases read
    simp [Token.written]
  · intro none
    split at read
    · have := readDeclaration_starts read
      simp [none] at this
    · unfold readInstruction at read
      repeat' split at read
      all_goals cases read
      simp [Token.written] at none
    · unfold readTag at read
      repeat' split at read
      all_goals cases read
      all_goals simp [Token.written] at none

/-- What is left after a token is shorter than what it was read from. -/
theorem length_after_next {first : Char} {rest after : List Char} {token : Token}
    (read : next first rest = .ok (token, after)) : after.length < (first :: rest).length := by
  rw [next_written read, List.length_append]
  have := List.length_pos_iff.mpr (Token.written_ne_nil read)
  omega

/-- The tokens of a text up to its end or the first failure. -/
def scan : List Char → List Token × Option Failure
  | [] => ([], none)
  | first :: rest =>
    match _read : next first rest with
    | .error failure => ([], some failure)
    | .ok (token, after) =>
      let (tokens, failure) := scan after
      (token :: tokens, failure)
termination_by text => text.length
decreasing_by exact length_after_next _read

@[simp] theorem scan_nil : scan [] = ([], none) := by
  rw [scan]

theorem scan_of_read {first : Char} {rest after : List Char} {token : Token}
    (read : next first rest = .ok (token, after)) :
    scan (first :: rest) = (token :: (scan after).1, (scan after).2) := by
  rw [scan]
  split
  · next failure failed => cases read.symm.trans failed
  · next other left same =>
    cases read.symm.trans same
    rfl

theorem scan_of_failure {first : Char} {rest : List Char} {failure : Failure}
    (read : next first rest = .error failure) : scan (first :: rest) = ([], some failure) := by
  rw [scan]
  split
  · next other failed =>
    cases read.symm.trans failed
    rfl
  · next token after same => cases read.symm.trans same

end PomLens.Markup
