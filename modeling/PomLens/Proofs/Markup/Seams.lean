/-
This file says where the spans of a parsed tree begin and end.

A line of the text may end anywhere in a document, but no span of a node begins or ends inside the
ending of a line. Two tokens that follow each other are never both data, so where one ends and the
next begins there is an angle bracket on one side (`rests_seam`), and the text of a node begins and
ends with characters that are not blank. Angle brackets also stop every stretch of blanks
(`le_of_beforeBracket`, `le_of_behindBracket`), which is why nothing that is done to the blanks
around an element reaches out of the element around it.
-/

import PomLens.Proofs.Document.Position
import PomLens.Proofs.Markup.Enclosed
import PomLens.Proofs.Markup.Nesting
import PomLens.Proofs.Markup.Denoting

namespace PomLens

/-! ### Brackets -/

namespace Text

/-- An element or other markup begins at the offset. -/
def BeforeBracket (text : List Char) (offset : Nat) : Prop :=
  StandsAt text offset ['<']

/-- An element or other markup ends at the offset. -/
def BehindBracket (text : List Char) (offset : Nat) : Prop :=
  ∃ start, StandsAt text start ['>'] ∧ start + 1 = offset

variable {text chars : List Char} {offset bracket : Nat}

theorem StandsAt.rests (stands : StandsAt text offset chars) {first : Char}
    (begins : chars.head? = some first) (visible : isBlank first = false) : Rests text offset := by
  obtain ⟨before, after, rfl, rfl⟩ := stands
  refine rests_of_append fun _ isFeed => ?_
  obtain ⟨rest, rfl⟩ := List.head?_eq_some_iff.mp begins
  obtain rfl : first = '\n' := by simpa using isFeed
  cases visible

theorem StandsAt.rests_behind (stands : StandsAt text offset chars) {last : Char}
    (ends : chars.getLast? = some last) (visible : isBlank last = false) :
    Rests text (offset + size chars) := by
  obtain ⟨before, after, rfl, rfl⟩ := stands
  rw [← List.append_assoc, ← size_append]
  refine rests_of_append fun isReturn _ => ?_
  obtain ⟨front, rfl⟩ := List.getLast?_eq_some_iff.mp ends
  obtain rfl : last = '\r' := by simpa using isReturn
  cases visible

theorem BeforeBracket.rests (begins : BeforeBracket text offset) : Rests text offset :=
  StandsAt.rests begins rfl (by decide)

theorem BehindBracket.rests (ends : BehindBracket text offset) : Rests text offset := by
  obtain ⟨start, stands, rfl⟩ := ends
  exact stands.rests_behind rfl (by decide)

/-- Blanks in front of markup end in front of it. -/
theorem StandsAt.le_of_beforeBracket (stands : StandsAt text offset chars)
    (blanks : blank chars = true) (begins : BeforeBracket text bracket)
    (inFront : offset ≤ bracket) : offset + size chars ≤ bracket := by
  obtain ⟨before, after, rfl, rfl⟩ := stands
  obtain ⟨front, back, same, rfl⟩ := begins
  obtain ⟨between, rfl, behind⟩ := exists_between same inFront
  by_contra longer
  obtain ⟨more, rfl, markup⟩ := exists_between behind.symm (by rw [size_append] at longer; omega)
  cases more with
  | nil => simp at longer
  | cons first more =>
    obtain rfl : '<' = first := by simpa using congrArg List.head? markup
    have noBracket : '<' ∉ between ++ '<' :: more :=
      Markup.Piece.not_mem_of_blank blanks (by decide)
    simp at noBracket

/-- Blanks behind markup begin behind it. -/
theorem StandsAt.le_of_behindBracket (stands : StandsAt text offset chars)
    (blanks : blank chars = true) (ends : BehindBracket text bracket)
    (inFront : bracket ≤ offset + size chars) : bracket ≤ offset := by
  obtain ⟨before, after, rfl, rfl⟩ := stands
  obtain ⟨-, ⟨front, back, same, rfl⟩, rfl⟩ := ends
  by_contra later
  obtain ⟨between, rfl, behind⟩ := exists_between same (by omega)
  have width : ('>' : Char).utf8Size = 1 := by decide
  rw [← List.append_assoc] at behind
  obtain ⟨more, rfl, -⟩ := exists_between behind.symm (by
    rw [size_append] at inFront
    simp only [size_append, size_cons, size_nil, width]
    omega)
  have noBracket : '>' ∉ between ++ ['>'] ++ more :=
    Markup.Piece.not_mem_of_blank blanks (by decide)
  simp at noBracket

end Text

namespace Markup

open Piece (innerStart literalNode singleTag)
open Text (StandsAt BeforeBracket BehindBracket size Rests)

/-! ### Seams -/

/-- Markup begins and ends with an angle bracket. -/
theorem Token.Legible.brackets {token : Token} (legible : token.Legible)
    (notText : ∀ run, token ≠ .text run) : ∃ content, token.written = '<' :: content ++ ['>'] := by
  cases token with
  | text run => exact absurd rfl (notText run)
  | _ => exact written_of_delimited legible notText

/-- Where one token ends and the next begins, no ending of a line is divided. -/
theorem rests_seam {tokens first second : List Token}
    (legible : ∀ token ∈ tokens, token.Legible) (alternating : Alternating tokens)
    (split : tokens = first ++ second) : Rests (writtenOf tokens) (size (writtenOf first)) := by
  subst split
  rw [writtenOf_append]
  refine Text.rests_of_append fun isReturn isFeed => ?_
  rcases List.eq_nil_or_concat first with rfl | ⟨before, last, rfl⟩
  · cases isReturn
  cases second with
  | nil => cases isFeed
  | cons next after =>
    rw [List.concat_eq_append] at legible alternating isReturn
    by_cases isText : ∃ run, last = .text run
    · obtain ⟨run, rfl⟩ := isText
      have notText : ∀ other, next ≠ .text other :=
        (List.isChain_append.mp alternating).2.2 _ (by simp) _ (by simp) run rfl
      obtain ⟨content, brackets⟩ := (legible next (by simp)).brackets notText
      simp [brackets] at isFeed
    · obtain ⟨content, brackets⟩ := (legible last (by simp)).brackets fun run same =>
        isText ⟨run, same⟩
      rw [writtenOf_append, writtenOf_cons, writtenOf_nil, List.append_nil, brackets,
        ← List.append_assoc, List.getLast?_concat] at isReturn
      cases isReturn

/-! ### Nodes -/

/-- What is kept of data begins and ends with characters that are not blank. If nothing is kept, it
is the place where the data end. -/
theorem rests_body {source data : List Char} {offset : Nat} (stands : StandsAt source offset data)
    (ends : Rests source (offset + size data)) (range : Span) :
    ((TextRun.ofSpan source range (.between offset (offset + size data))).body).Rests source := by
  have inPlace := standsAt_trim stands
  simp only [TextRun.ofSpan, stands.slice?, Span.start_between]
  by_cases nothing : Text.trim data = []
  · have noStart : Text.trimStart data = [] := by
      have blanks := Text.blank_of_trim_eq_nil nothing
      exact List.dropWhile_eq_nil_iff.mpr (List.all_eq_true.mp blanks)
    have point : Rests source (offset + (size data - size (Text.trimStart data))) := by
      rwa [noStart, Text.size_nil, Nat.sub_zero]
    rw [nothing, Text.size_nil, Nat.add_zero]
    exact ⟨point, by simpa [Span.between] using point⟩
  · obtain ⟨first, begins⟩ := Option.isSome_iff_exists.mp (List.isSome_head?.mpr nothing)
    obtain ⟨last, stops⟩ := Option.isSome_iff_exists.mp (List.getLast?_isSome.mpr nothing)
    refine ⟨inPlace.rests begins (Text.not_blank_head?_trim begins), ?_⟩
    rw [Span.stop_between_add]
    exact inPlace.rests_behind stops (Text.not_blank_getLast?_trim stops)

/-- The spans of a node in the text that it was read from: their ends divide no ending of a line,
and those of an element stand at brackets. -/
structure Node.Seated (text : List Char) (node : Node) : Prop where
  range : node.range.Rests text
  inner : node.inner.Rests text
  body : ∀ run, node = .text run → run.body.Rests text
  start : node.isText = false → BeforeBracket text node.range.start
  stop : node.isText = false → BehindBracket text node.range.stop
  innerStart : node.isText = false → node.isSelfClosing = false →
    BehindBracket text node.inner.start
  innerStop : node.isText = false → node.isSelfClosing = false →
    BeforeBracket text node.inner.stop

/-- What is read from a token with brackets stands between them. -/
theorem brackets_of_standsAt {text content : List Char} {offset stop : Nat}
    (stands : StandsAt text offset ('<' :: content ++ ['>']))
    (size : offset + size ('<' :: content ++ ['>']) = stop) :
    BeforeBracket text offset ∧ BehindBracket text stop := by
  have width : Text.size ['>'] = 1 := by decide
  refine ⟨StandsAt.left (by simpa using stands), _, stands.right, ?_⟩
  rw [← size, Text.size_append, width, Nat.add_assoc]

/-- Of a text, there are the run and its body. -/
theorem Node.seated_text {text : List Char} {run : TextRun} (range : run.range.Rests text)
    (body : run.body.Rests text) : (Node.text run).Seated text where
  range := range
  inner := range
  body _ same := by
    cases same
    exact body
  start element := by cases element
  stop element := by cases element
  innerStart element := by cases element
  innerStop element := by cases element

/-- Of an element, there are the spans and the brackets of its tags. -/
theorem Node.seated_element {text : List Char} {tag : Tag} (children : List Node)
    (range : tag.range.Rests text) (inner : tag.inner.Rests text)
    (start : BeforeBracket text tag.range.start) (stop : BehindBracket text tag.range.stop)
    (innerStart : tag.selfClosing = false → BehindBracket text tag.inner.start)
    (innerStop : tag.selfClosing = false → BeforeBracket text tag.inner.stop) :
    (Node.element tag children).Seated text where
  range := range
  inner := inner
  body _ same := by cases same
  start _ := start
  stop _ := stop
  innerStart _ := innerStart
  innerStop _ := innerStop

section

variable {source : List Char} {offset : Nat}

/-- Data are seated if tokens end where they start and where they end. -/
theorem runNode_seated {run : List Char} (stands : StandsAt source offset run)
    (start : Rests source offset) (stop : Rests source (offset + size run)) :
    (runNode source offset run).Seated source := by
  have range : (Span.between offset (offset + size run)).Rests source :=
    ⟨start, by rwa [Span.stop_between_add]⟩
  rw [runNode]
  exact Node.seated_text (by rwa [TextRun.range_ofSpan]) (rests_body stands stop _)

/-- A literal section is seated by its brackets. -/
theorem literalNode_seated {content : List Char}
    (stands : StandsAt source offset (Token.literal content).written) :
    (literalNode source offset content).Seated source := by
  obtain ⟨range, place, node, inPlace⟩ := Piece.literalNode_eq stands
  have brackets : (Token.literal content).written =
      '<' :: (literalStart ++ content ++ [']', ']']) ++ ['>'] := by simp [Token.written]
  rw [brackets] at stands
  obtain ⟨starts, stops⟩ := brackets_of_standsAt stands rfl
  rw [← brackets] at stops
  have inRange : (literalNode source offset content).range.Rests source := by
    rw [range_literalNode]
    exact ⟨starts.rests, by rw [Span.stop_between_add]; exact stops.rests⟩
  have ends : Rests source (place + size content) := inPlace.right.rests rfl (by decide)
  rw [node] at inRange ⊢
  exact Node.seated_text inRange (rests_body inPlace.left ends range)

/-- An element without an end of its own is seated by the brackets of its tag, and the point
inside it by the slash. -/
theorem singleTag_seated {body : List Char}
    (stands : StandsAt source offset (Token.selfClosing body).written) :
    (Node.element (singleTag offset body) []).Seated source := by
  have brackets : (Token.selfClosing body).written = '<' :: (body ++ ['/']) ++ ['>'] := by
    simp [Token.written]
  have inFront : (Token.selfClosing body).written = ('<' :: body) ++ ['/', '>'] := rfl
  have stop : size (Token.selfClosing body).written - 2 = size ('<' :: body) := by
    rw [inFront, Text.size_append]
    rfl
  obtain ⟨starts, stops⟩ := brackets_of_standsAt (brackets ▸ stands) rfl
  rw [← brackets] at stops
  rw [inFront] at stands
  have point : Rests source (offset + size (Token.selfClosing body).written - 2) := by
    rw [Nat.add_sub_assoc (by rw [inFront, Text.size_append]; exact Nat.le_add_left _ _), stop]
    exact stands.right.rests rfl (by decide)
  have range : (singleTag offset body).range.stop =
      offset + size (Token.selfClosing body).written := by
    rw [singleTag, Span.stop_between_add]
  rw [← range] at stops
  refine Node.seated_element [] ⟨starts.rests, stops.rests⟩ ⟨point, point⟩ starts stops ?_ ?_
  · intro open_
    cases open_
  · intro open_
    cases open_

/-- An element is seated by the brackets of its two tags. -/
theorem elementTag_seated {opening closing : List Char} {inside : List Token}
    (opens : StandsAt source offset (Token.opening opening).written)
    (closes : StandsAt source (closeStart offset opening inside) (Token.closing closing).written)
    (children : List Node) :
    (Node.element (elementTag offset opening inside closing) children).Seated source := by
  obtain ⟨starts, innerStarts⟩ := brackets_of_standsAt opens rfl
  obtain ⟨innerStops, stops⟩ := @brackets_of_standsAt _ ('/' :: closing) _ _ closes rfl
  have innerStop : (elementTag offset opening inside closing).inner.stop =
      closeStart offset opening inside := by
    rw [elementTag, closeStart, Span.stop_between_add]
  have stop : (elementTag offset opening inside closing).range.stop =
      closeStop offset opening inside closing := by
    simp [elementTag, closeStop, closeStart, innerStart, Nat.add_assoc]
  rw [← innerStop] at innerStops
  have stops : BehindBracket source (elementTag offset opening inside closing).range.stop := by
    rw [stop]
    exact stops
  exact Node.seated_element children ⟨starts.rests, stops.rests⟩
    ⟨innerStarts.rests, innerStops.rests⟩ starts stops (fun _ => innerStarts) fun _ => innerStops

end

/-- A node is seated between the tokens that it was read from. -/
theorem ReadFrom.seated {source : List Char} {node : Node}
    (readFrom : ReadFrom source (scan source).1 node) (whole : writtenOf (scan source).1 = source) :
    node.Seated source := by
  obtain ⟨legible, alternating⟩ := scan_legible source
  have seam {first second : List Token} (split : (scan source).1 = first ++ second) :
      Rests source (size (writtenOf first)) := by
    have rests := rests_seam legible alternating split
    rwa [whole] at rests
  have stands {before after : List Token} {token : Token}
      (split : (scan source).1 = before ++ token :: after) :
      StandsAt source (size (writtenOf before)) token.written := by
    have stands := standsAt_written split
    rwa [whole] at stands
  generalize (scan source).1 = tokens at *
  cases readFrom with
  | @text before after run split =>
    have stop := @seam (before ++ [.text run]) after (by simp [split])
    rw [writtenOf_append, Text.size_append] at stop
    simp only [writtenOf_cons, writtenOf_nil, List.append_nil, Token.written] at stop
    exact runNode_seated (stands split) (seam split) stop
  | literal split => exact literalNode_seated (stands split)
  | single split => exact singleTag_seated (stands split)
  | @pair before inside after opening closing children sameName split =>
    have closes := @stands (before ++ .opening opening :: inside) after (.closing closing)
      (by simp [split])
    have place : size (writtenOf (before ++ .opening opening :: inside)) =
        closeStart (size (writtenOf before)) opening inside := by
      simp [closeStart, innerStart, Nat.add_assoc]
    rw [place] at closes
    exact elementTag_seated (stands split) closes children

/-! ### Nodes of a parsed tree -/

/-- The node is one of a tree. -/
def Tree.Has (tree : Tree) (node : Node) : Prop :=
  ∃ place ∈ tree.places, place.node = node

theorem Tree.has_root (tree : Tree) : tree.Has tree.root :=
  ⟨_, tree.root_mem_places, rfl⟩

theorem Tree.Has.child {tree : Tree} {node child : Node} (has : tree.Has node)
    (member : child ∈ node.children) : tree.Has child := by
  obtain ⟨place, inTree, rfl⟩ := has
  obtain ⟨other, isChild, same⟩ := Place.exists_mem_children member
  exact ⟨other, (Tree.children_sublist_places inTree).mem isChild, same⟩

section

variable {text : String} {tree : Tree} (parsed : Tree.parse text = .ok tree)
  (unmarked : withoutMark text.toList = text.toList)

include parsed

theorem Tree.Has.fits {node : Node} (has : tree.Has node) : node.Fits := by
  obtain ⟨place, inTree, rfl⟩ := has
  exact Tree.fits_of_parse parsed place inTree

include unmarked

/-- In a text without a mark every node is seated. -/
theorem Tree.Has.seated {node : Node} (has : tree.Has node) : node.Seated text.toList := by
  obtain ⟨place, inTree, rfl⟩ := has
  have readFrom := Tree.readFrom_of_parse parsed place inTree
  have whole := writtenOf_tokensOf parsed
  rw [tokensOf, unmarked] at readFrom whole
  exact readFrom.seated whole

/-- So is the text of a node. -/
theorem Tree.Has.rests_textSpan {node : Node} (has : tree.Has node) :
    node.textSpan.Rests text.toList := by
  have seated := has.seated parsed unmarked
  cases node with
  | text run => exact seated.body run rfl
  | element tag children =>
    rw [Node.textSpan]
    cases found : (Node.element tag children).firstRun? with
    | none => exact ⟨seated.inner.start, seated.inner.start⟩
    | some run =>
      obtain ⟨child, member, isRun⟩ := List.exists_of_findSome?_eq_some found
      exact ((has.child member).seated parsed unmarked).body run (Node.run?_eq_some isRun)

end

end Markup

end PomLens
