/-
This file says which nodes pieces of markup have, and proves that the builder builds them.

The nodes of a stretch of pieces are found by walking over it with the offset at hand: a run of
data becomes a text when markup or the end stops it, and an element becomes a node around the
nodes of what is inside. `foldlM_tokens` is the simulation: a builder that places the tokens of
sound pieces adds exactly their nodes to the innermost open element and moves on by their size.
-/

import PomLens.Proofs.Markup.Piece
import PomLens.Proofs.Markup.Storing

namespace PomLens.Markup

namespace Piece

/-! ### The nodes of pieces -/

/-- The text node of the data between two offsets. There is none between equal ones. -/
def dataNodes (source : List Char) (start offset : Nat) : List Node :=
  if start = offset then []
  else [.text (.ofSpan source (.between start offset) (.between start offset))]

/-- The text node of a literal section at an offset. -/
def literalNode (source : List Char) (offset : Nat) (content : List Char) : Node :=
  let stop := offset + Text.size (Token.literal content).written
  .text (.ofSpan source (.between offset stop)
    (.between (offset + 1 + literalStart.length) (stop - "]]>".length)))

/-- The tag of a self-closing element at an offset. -/
def singleTag (offset : Nat) (body : List Char) : Tag :=
  let stop := offset + Text.size (Token.selfClosing body).written
  ⟨tagName body, true, .between offset stop, .point (stop - 2)⟩

/-- Where what is inside an element starts, if the element starts at an offset. -/
def innerStart (offset : Nat) (opening : List Char) : Nat :=
  offset + Text.size (Token.opening opening).written

/-- The tag of an element with an end of its own at an offset. -/
def pairTag (offset : Nat) (opening : List Char) (inside : List Piece) (closing : List Char) :
    Tag :=
  let inner := innerStart offset opening
  let close := inner + Text.size (written inside)
  ⟨tagName opening, false,
    .between offset (close + Text.size (Token.closing closing).written), .between inner close⟩

/-- The nodes of pieces that start at `offset`, when the data from `start` on stand right
before them. -/
def nodes (source : List Char) (start offset : Nat) : List Piece → List Node
  | [] => dataNodes source start offset
  | .char one :: rest => nodes source start (offset + one.utf8Size) rest
  | .literal content :: rest =>
    let stop := offset + Text.size (Token.literal content).written
    dataNodes source start offset ++
      literalNode source offset content :: nodes source stop stop rest
  | .aside text :: rest =>
    let stop := offset + Text.size (Token.aside text).written
    dataNodes source start offset ++ nodes source stop stop rest
  | .single body :: rest =>
    let stop := offset + Text.size (Token.selfClosing body).written
    dataNodes source start offset ++
      .element (singleTag offset body) [] :: nodes source stop stop rest
  | .pair opening inside closing :: rest =>
    let inner := innerStart offset opening
    let stop := inner + Text.size (written inside) + Text.size (Token.closing closing).written
    dataNodes source start offset ++
      .element (pairTag offset opening inside closing) (nodes source inner inner inside) ::
        nodes source stop stop rest

/-- A piece at which data end. -/
def isMarkup : Piece → Bool
  | .char _ => false
  | _ => true

theorem isMarkup_of_isElement {piece : Piece} (element : piece.isElement = true) :
    piece.isMarkup = true := by
  cases piece <;> simp_all [isElement, isMarkup]

@[simp] theorem dataNodes_self (source : List Char) (offset : Nat) :
    dataNodes source offset offset = [] := by
  simp [dataNodes]

/-- Markup ends the data before it. -/
theorem nodes_cons_of_isMarkup (source : List Char) (start offset : Nat) {piece : Piece}
    (markup : piece.isMarkup) (rest : List Piece) :
    nodes source start offset (piece :: rest) =
      dataNodes source start offset ++
        (nodes source offset offset [piece] ++
          nodes source (offset + Text.size (written [piece]))
            (offset + Text.size (written [piece])) rest) := by
  cases piece with
  | char one => simp [isMarkup] at markup
  | literal content => simp [nodes, written]
  | aside text => simp [nodes, written]
  | single body => simp [nodes, written]
  | pair opening inside closing => simp [nodes, written, innerStart, Nat.add_assoc]

/-- Two stretches of pieces can be looked at one after the other if markup stands at their
seam. -/
theorem nodes_append_cons (source : List Char) (start offset : Nat) (first : List Piece)
    {piece : Piece} (markup : piece.isMarkup) (rest : List Piece) :
    nodes source start offset (first ++ piece :: rest) =
      nodes source start offset first ++
        (nodes source (offset + Text.size (written first))
            (offset + Text.size (written first)) [piece] ++
          nodes source (offset + Text.size (written (first ++ [piece])))
            (offset + Text.size (written (first ++ [piece]))) rest) := by
  induction first using stretchInduction generalizing start offset with
  | nil =>
    rw [List.nil_append, nodes_cons_of_isMarkup source start offset markup]
    simp [nodes]
  | char one more inductionHypothesis =>
    rw [List.cons_append, nodes, inductionHypothesis]
    simp [nodes, written, Nat.add_assoc]
  | literal content more inductionHypothesis =>
    simp [nodes, written, inductionHypothesis, Nat.add_assoc]
  | aside text more inductionHypothesis =>
    simp [nodes, written, inductionHypothesis, Nat.add_assoc]
  | single body more inductionHypothesis =>
    simp [nodes, written, inductionHypothesis, Nat.add_assoc]
  | pair opening inside closing more _ inductionHypothesis =>
    simp [nodes, written, inductionHypothesis, innerStart, Nat.add_assoc]

/-! ### Building -/

/-- The builder between two tokens, by the innermost open element and what is around it. -/
def inElement (position : Nat) (inside : OpenElement) (outer : List OpenElement)
    (root : Option Node) : Builder :=
  ⟨position, inside :: outer, root⟩

/-- The element with more nodes read inside it. -/
def withNodes (inside : OpenElement) (added : List Node) : OpenElement :=
  { inside with children := added.reverse ++ inside.children }

@[simp] theorem withNodes_nil (inside : OpenElement) : withNodes inside [] = inside := rfl

@[simp] theorem withNodes_withNodes (inside : OpenElement) (first second : List Node) :
    withNodes (withNodes inside first) second = withNodes inside (first ++ second) := by
  simp [withNodes]

theorem step_text (source : List Char) (position : Nat) (inside : OpenElement)
    (outer : List OpenElement) (root : Option Node) (run : List Char) :
    Builder.step source (inElement position inside outer root) (.text run) =
      pure (inElement (position + Text.size run)
        (withNodes inside [.text (.ofSpan source
          (.between position (position + Text.size run))
          (.between position (position + Text.size run)))]) outer root) := rfl

theorem step_literal (source : List Char) (position : Nat) (inside : OpenElement)
    (outer : List OpenElement) (root : Option Node) (content : List Char) :
    Builder.step source (inElement position inside outer root) (.literal content) =
      pure (inElement (position + Text.size (Token.literal content).written)
        (withNodes inside [literalNode source position content]) outer root) := rfl

theorem step_aside (source : List Char) (position : Nat) (inside : OpenElement)
    (outer : List OpenElement) (root : Option Node) (text : List Char) :
    Builder.step source (inElement position inside outer root) (.aside text) =
      pure (inElement (position + Text.size (Token.aside text).written) inside outer root) := rfl

theorem step_single (source : List Char) (position : Nat) (inside : OpenElement)
    (outer : List OpenElement) (root : Option Node) (body : List Char) :
    Builder.step source (inElement position inside outer root) (.selfClosing body) =
      pure (inElement (position + Text.size (Token.selfClosing body).written)
        (withNodes inside [.element (singleTag position body) []]) outer root) := rfl

theorem step_opening (source : List Char) (position : Nat) (inside : OpenElement)
    (outer : List OpenElement) (root : Option Node) (opening : List Char) :
    Builder.step source (inElement position inside outer root) (.opening opening) =
      pure (inElement (innerStart position opening)
        ⟨tagName opening, position, innerStart position opening, []⟩ (inside :: outer) root) := rfl

/-- A closing tag of the right name puts the finished element into the one around it. -/
theorem step_closing (source : List Char) (position start inner : Nat) (name : String)
    (children : List Node) (inside : OpenElement) (outer : List OpenElement)
    (root : Option Node) (closing : List Char) (same : name = closingName closing) :
    let stop := position + Text.size (Token.closing closing).written
    Builder.step source (inElement position ⟨name, start, inner, children⟩ (inside :: outer) root)
        (.closing closing) =
      pure (inElement stop
        (withNodes inside [.element ⟨name, false, .between start stop, .between inner position⟩
          children.reverse]) outer root) := by
  subst same
  simp only [Builder.step, inElement, Builder.close]
  simp only [ne_eq, not_true_eq_false, ↓reduceIte]
  rfl

/-- A run of data becomes a text node. -/
theorem foldlM_pending (source : List Char) (position : Nat) (inside : OpenElement)
    (outer : List OpenElement) (root : Option Node) (run : List Char) :
    (pending run).foldlM (Builder.step source) (inElement position inside outer root) =
      pure (inElement (position + Text.size run)
        (withNodes inside (dataNodes source position (position + Text.size run)))
        outer root) := by
  by_cases empty : run = []
  · subst empty
    simp [pending]
  · have longer : position ≠ position + Text.size run := by
      have := mt Text.size_eq_zero_iff.mp empty
      omega
    simp only [pending, if_neg empty, dataNodes, if_neg longer, List.foldlM_cons,
      List.foldlM_nil, step_text, pure_bind]

/-- A builder that places the tokens of sound pieces inside an element adds their nodes to it
and moves on by their size. -/
theorem foldlM_tokens (source : List Char) {pieces : List Piece} (sound : Sound pieces)
    (position : Nat) (inside : OpenElement) (outer : List OpenElement) (root : Option Node)
    (run : List Char) :
    (tokens run pieces).foldlM (Builder.step source) (inElement position inside outer root) =
      pure (inElement (position + Text.size run + Text.size (written pieces))
        (withNodes inside (nodes source position (position + Text.size run) pieces))
        outer root) := by
  induction pieces using stretchInduction generalizing position inside outer run with
  | nil => simpa [tokens, nodes] using foldlM_pending source position inside outer root run
  | char one rest inductionHypothesis =>
    rw [Sound] at sound
    rw [tokens, inductionHypothesis sound.2, nodes, written]
    simp [Nat.add_assoc]
  | literal content rest inductionHypothesis =>
    rw [Sound] at sound
    rw [tokens, List.foldlM_append, foldlM_pending, pure_bind, List.foldlM_cons, step_literal,
      pure_bind, inductionHypothesis sound.2, nodes, written]
    simp [Nat.add_assoc]
  | aside text rest inductionHypothesis =>
    rw [Sound] at sound
    rw [tokens, List.foldlM_append, foldlM_pending, pure_bind, List.foldlM_cons, step_aside,
      pure_bind, inductionHypothesis sound.2, nodes, written]
    simp [Nat.add_assoc]
  | single body rest inductionHypothesis =>
    rw [Sound] at sound
    rw [tokens, List.foldlM_append, foldlM_pending, pure_bind, List.foldlM_cons, step_single,
      pure_bind, inductionHypothesis sound.2, nodes, written]
    simp [Nat.add_assoc]
  | pair opening within closing rest insideHypothesis inductionHypothesis =>
    rw [Sound] at sound
    obtain ⟨-, -, sameName, soundInside, soundRest⟩ := sound
    rw [tokens, List.foldlM_append, foldlM_pending, pure_bind, List.foldlM_cons, step_opening,
      pure_bind, List.foldlM_append, insideHypothesis soundInside, pure_bind, List.foldlM_cons]
    simp only [withNodes, List.append_nil]
    rw [step_closing _ _ _ _ _ _ _ _ _ _ sameName, pure_bind, inductionHypothesis soundRest,
      nodes, written]
    simp [withNodes, pairTag, innerStart, Nat.add_assoc]

/-- Outside every element, pieces that are no elements leave no trace but their size. -/
theorem foldlM_tokens_outside (source : List Char) {pieces : List Piece}
    (noElement : ∀ piece ∈ pieces, piece.isElement = false) (position : Nat)
    (root : Option Node) (run : List Char) :
    (tokens run pieces).foldlM (Builder.step source) ⟨position, [], root⟩ =
      pure ⟨position + Text.size run + Text.size (written pieces), [], root⟩ := by
  have data (position : Nat) (run : List Char) :
      (pending run).foldlM (Builder.step source) ⟨position, [], root⟩ =
        pure ⟨position + Text.size run, [], root⟩ := by
    by_cases empty : run = []
    · subst empty
      simp [pending]
    · simp only [pending, if_neg empty]
      rfl
  induction pieces using stretchInduction generalizing position run with
  | nil => simpa [tokens] using data position run
  | char one rest inductionHypothesis =>
    rw [tokens, inductionHypothesis fun piece member =>
      noElement piece (List.mem_cons_of_mem _ member), written]
    simp [Nat.add_assoc]
  | literal content rest inductionHypothesis =>
    have placed : Builder.step source ⟨position + Text.size run, [], root⟩ (.literal content) =
        pure ⟨position + Text.size run + Text.size (Token.literal content).written, [], root⟩ :=
      rfl
    rw [tokens, List.foldlM_append, data, pure_bind, List.foldlM_cons, placed, pure_bind,
      inductionHypothesis fun piece member => noElement piece (List.mem_cons_of_mem _ member),
      written]
    simp [Nat.add_assoc]
  | aside text rest inductionHypothesis =>
    have placed : Builder.step source ⟨position + Text.size run, [], root⟩ (.aside text) =
        pure ⟨position + Text.size run + Text.size (Token.aside text).written, [], root⟩ := rfl
    rw [tokens, List.foldlM_append, data, pure_bind, List.foldlM_cons, placed, pure_bind,
      inductionHypothesis fun piece member => noElement piece (List.mem_cons_of_mem _ member),
      written]
    simp [Nat.add_assoc]
  | single body rest =>
    exact absurd (noElement _ List.mem_cons_self) (by simp [isElement])
  | pair opening within closing rest =>
    exact absurd (noElement _ List.mem_cons_self) (by simp [isElement])

end Piece

end PomLens.Markup
