/-
This file says which tokens make up an element, and proves that the builder builds the tree of
their derivation.

Of a token only the tag matters for the nesting, and of a tag only its name and whether it opens,
closes or does both: that is its mark. The marks of a document are one element of the grammar

  element  ::=  stands n  |  opens n  contents  closes n
  contents ::=  (element)*

in which data and asides may stand anywhere. A derivation carries the tree: `Derives` gives the
nodes of some tokens that stand at an offset inside an element, each run of data at the place in
the contents where it was read. Two facts tie the builder to the grammar: it builds the nodes of
every derivation (`foldlM_of_derives`), and tokens whose marks are contents have one
(`exists_derives`).
-/

import PomLens.Proofs.Markup.Building

namespace PomLens

namespace Markup

open Piece (inElement withNodes innerStart singleTag literalNode)

/-! ### The grammar of tags -/

/-- What a tag says about nesting. -/
inductive Mark
  | opens (name : String)
  /-- An element by itself. -/
  | stands (name : String)
  | closes (name : String)
  deriving DecidableEq, Repr

/-- The mark of a tag. Other tokens have none. -/
def Token.mark? : Token → Option Mark
  | .opening body => some (.opens (tagName body))
  | .selfClosing body => some (.stands (tagName body))
  | .closing body => some (.closes (closingName body))
  | _ => none

/-- The marks of the tags among some tokens. -/
def marks (tokens : List Token) : List Mark :=
  tokens.filterMap Token.mark?

@[simp] theorem marks_nil : marks [] = [] := rfl

@[simp] theorem marks_append (first second : List Token) :
    marks (first ++ second) = marks first ++ marks second :=
  List.filterMap_append

theorem marks_cons_of_none {token : Token} (unmarked : token.mark? = none) (rest : List Token) :
    marks (token :: rest) = marks rest :=
  List.filterMap_cons_none unmarked

theorem marks_cons_of_some {token : Token} {mark : Mark} (marked : token.mark? = some mark)
    (rest : List Token) : marks (token :: rest) = mark :: marks rest :=
  List.filterMap_cons_some marked

theorem marks_opening (body : List Char) (rest : List Token) :
    marks (.opening body :: rest) = .opens (tagName body) :: marks rest := rfl

theorem marks_closing (body : List Char) (rest : List Token) :
    marks (.closing body :: rest) = .closes (closingName body) :: marks rest := rfl

theorem unmarked_of_marks_eq_nil {tokens : List Token} (unmarked : marks tokens = []) :
    ∀ token ∈ tokens, token.mark? = none :=
  List.filterMap_eq_nil_iff.mp unmarked

/-- Any number of elements. -/
inductive Contents : List Mark → Prop
  | nil : Contents []
  | stands (name : String) {rest : List Mark} (behind : Contents rest) :
      Contents (.stands name :: rest)
  | pair (name : String) {inside rest : List Mark} (within : Contents inside)
      (behind : Contents rest) : Contents (.opens name :: (inside ++ .closes name :: rest))

/-- One element. -/
inductive OneElement : List Mark → Prop
  | stands (name : String) : OneElement [.stands name]
  | pair (name : String) {inside : List Mark} (within : Contents inside) :
      OneElement (.opens name :: (inside ++ [.closes name]))

theorem OneElement.contents {element : List Mark} (one : OneElement element) :
    Contents element := by
  cases one with
  | stands name => exact .stands name .nil
  | pair name within => exact .pair name within .nil

theorem Contents.append {first second : List Mark} (left : Contents first)
    (right : Contents second) : Contents (first ++ second) := by
  induction left with
  | nil => exact right
  | stands name _ inductionHypothesis => exact .stands name inductionHypothesis
  | pair name within _ _ inductionHypothesis =>
    simpa using Contents.pair name within inductionHypothesis

/-! ### Derivation trees -/

/-- The text of some tokens. -/
def writtenOf (tokens : List Token) : List Char :=
  tokens.flatMap Token.written

@[simp] theorem writtenOf_nil : writtenOf [] = [] := rfl

@[simp] theorem writtenOf_cons (token : Token) (rest : List Token) :
    writtenOf (token :: rest) = token.written ++ writtenOf rest :=
  List.flatMap_cons

@[simp] theorem writtenOf_append (first second : List Token) :
    writtenOf (first ++ second) = writtenOf first ++ writtenOf second :=
  List.flatMap_append

/-- Where the closing tag of an element starts, if the element starts at an offset. -/
def closeStart (offset : Nat) (opening : List Char) (inside : List Token) : Nat :=
  innerStart offset opening + Text.size (writtenOf inside)

/-- Where the closing tag of an element ends. -/
def closeStop (offset : Nat) (opening : List Char) (inside : List Token)
    (closing : List Char) : Nat :=
  closeStart offset opening inside + Text.size (Token.closing closing).written

/-- The tag of an element with an end of its own at an offset. -/
def elementTag (offset : Nat) (opening : List Char) (inside : List Token)
    (closing : List Char) : Tag where
  name := tagName opening
  selfClosing := false
  range := .between offset (closeStop offset opening inside closing)
  inner := .between (innerStart offset opening) (closeStart offset opening inside)

/-- The text node of a run of data at an offset. -/
def runNode (source : List Char) (offset : Nat) (run : List Char) : Node :=
  let range := Span.between offset (offset + Text.size run)
  .text (.ofSpan source range range)

@[simp] theorem range_runNode (source : List Char) (offset : Nat) (run : List Char) :
    (runNode source offset run).range = .between offset (offset + Text.size run) :=
  TextRun.range_ofSpan _ _ _

@[simp] theorem range_literalNode (source : List Char) (offset : Nat) (content : List Char) :
    (literalNode source offset content).range =
      .between offset (offset + Text.size (Token.literal content).written) :=
  TextRun.range_ofSpan _ _ _

/-- The tokens stand at an offset inside an element, and these are their nodes. -/
inductive Derives (source : List Char) : Nat → List Token → List Node → Prop
  | nil (offset : Nat) : Derives source offset [] []
  | text {offset : Nat} {run : List Char} {rest : List Token} {nodes : List Node}
      (behind : Derives source (offset + Text.size run) rest nodes) :
      Derives source offset (.text run :: rest) (runNode source offset run :: nodes)
  | literal {offset : Nat} {content : List Char} {rest : List Token} {nodes : List Node}
      (behind : Derives source (offset + Text.size (Token.literal content).written) rest nodes) :
      Derives source offset (.literal content :: rest) (literalNode source offset content :: nodes)
  | aside {offset : Nat} {written : List Char} {rest : List Token} {nodes : List Node}
      (behind : Derives source (offset + Text.size written) rest nodes) :
      Derives source offset (.aside written :: rest) nodes
  | single {offset : Nat} {body : List Char} {rest : List Token} {nodes : List Node}
      (behind : Derives source (offset + Text.size (Token.selfClosing body).written) rest nodes) :
      Derives source offset (.selfClosing body :: rest)
        (.element (singleTag offset body) [] :: nodes)
  | pair {offset : Nat} {opening closing : List Char} {inside rest : List Token}
      {children nodes : List Node} (sameName : tagName opening = closingName closing)
      (within : Derives source (innerStart offset opening) inside children)
      (behind : Derives source (closeStop offset opening inside closing) rest nodes) :
      Derives source offset (.opening opening :: (inside ++ .closing closing :: rest))
        (.element (elementTag offset opening inside closing) children :: nodes)

/-- The tokens are one element at an offset, and this is its node. -/
inductive DerivesElement (source : List Char) (offset : Nat) : List Token → Node → Prop
  | single (body : List Char) :
      DerivesElement source offset [.selfClosing body] (.element (singleTag offset body) [])
  | pair {opening closing : List Char} {inside : List Token} {children : List Node}
      (sameName : tagName opening = closingName closing)
      (within : Derives source (innerStart offset opening) inside children) :
      DerivesElement source offset (.opening opening :: (inside ++ [.closing closing]))
        (.element (elementTag offset opening inside closing) children)

/-- The tokens of a document are one element with no tags around it, and the tree is that of its
derivation. -/
def Derived (source : List Char) (tokens : List Token) (tree : Tree) : Prop :=
  ∃ before element after, tokens = before ++ element ++ after ∧ marks before = [] ∧
    marks after = [] ∧
    DerivesElement source (Text.size (writtenOf before)) element tree.root

/-- Nodes are derived of contents. -/
theorem Derives.contents {source : List Char} {offset : Nat} {tokens : List Token}
    {nodes : List Node} (derives : Derives source offset tokens nodes) :
    Contents (marks tokens) := by
  induction derives with
  | nil offset => exact .nil
  | text _ inductionHypothesis => exact inductionHypothesis
  | literal _ inductionHypothesis => exact inductionHypothesis
  | aside _ inductionHypothesis => exact inductionHypothesis
  | single _ inductionHypothesis => exact .stands _ inductionHypothesis
  | @pair offset opening closing inside rest children nodes sameName _ _ withinHypothesis
      inductionHypothesis =>
    have pair := Contents.pair (tagName opening) withinHypothesis inductionHypothesis
    rw [marks_opening, marks_append, marks_closing, ← sameName]
    exact pair

theorem DerivesElement.oneElement {source : List Char} {offset : Nat} {tokens : List Token}
    {node : Node} (derives : DerivesElement source offset tokens node) :
    OneElement (marks tokens) := by
  cases derives with
  | single body => exact .stands (tagName body)
  | @pair opening closing inside children sameName within =>
    rw [marks_opening, marks_append, marks_closing, ← sameName]
    exact .pair (tagName opening) within.contents

theorem Derived.oneElement {source : List Char} {tokens : List Token} {tree : Tree}
    (derived : Derived source tokens tree) : OneElement (marks tokens) := by
  obtain ⟨before, element, after, rfl, unmarkedBefore, unmarkedAfter, derives⟩ := derived
  rw [marks_append, marks_append, unmarkedBefore, unmarkedAfter, List.nil_append,
    List.append_nil]
  exact derives.oneElement

/-! ### The builder builds them -/

/-- Inside an element the builder adds the nodes of a derivation and moves on by its size. -/
theorem foldlM_of_derives {source : List Char} {offset : Nat} {tokens : List Token}
    {nodes : List Node} (derives : Derives source offset tokens nodes) (inside : OpenElement)
    (outer : List OpenElement) (root : Option Node) :
    tokens.foldlM (Builder.step source) (inElement offset inside outer root) =
      pure (inElement (offset + Text.size (writtenOf tokens)) (withNodes inside nodes)
        outer root) := by
  induction derives generalizing inside outer with
  | nil offset => simp
  | text _ inductionHypothesis =>
    rw [List.foldlM_cons, Piece.step_text, pure_bind, inductionHypothesis]
    simp [Token.written, runNode, Nat.add_assoc]
  | literal _ inductionHypothesis =>
    rw [List.foldlM_cons, Piece.step_literal, pure_bind, inductionHypothesis]
    simp [Nat.add_assoc]
  | aside _ inductionHypothesis =>
    rw [List.foldlM_cons, Piece.step_aside, pure_bind, Token.written, inductionHypothesis]
    simp [Token.written, Nat.add_assoc]
  | single _ inductionHypothesis =>
    rw [List.foldlM_cons, Piece.step_single, pure_bind, inductionHypothesis]
    simp [Nat.add_assoc]
  | @pair offset opening closing within rest children nodes sameName _ _ withinHypothesis
      inductionHypothesis =>
    have closed := Piece.step_closing source (closeStart offset opening within) offset
      (innerStart offset opening) (tagName opening) children.reverse inside outer root closing
      sameName
    have behind := inductionHypothesis
      (withNodes inside [.element (elementTag offset opening within closing) children]) outer
    rw [closeStop, elementTag, closeStop] at behind
    rw [List.foldlM_cons, Piece.step_opening, pure_bind, List.foldlM_append, withinHypothesis,
      pure_bind, List.foldlM_cons]
    simp only [withNodes, List.append_nil]
    rw [← closeStart, closed, pure_bind, List.reverse_reverse, behind]
    simp [withNodes, elementTag, closeStop, closeStart, innerStart, Nat.add_assoc]

/-- Outside every element tokens without marks leave no trace but their size. -/
theorem foldlM_outside (source : List Char) {tokens : List Token} (unmarked : marks tokens = [])
    (position : Nat) (root : Option Node) :
    tokens.foldlM (Builder.step source) ⟨position, [], root⟩ =
      pure ⟨position + Text.size (writtenOf tokens), [], root⟩ := by
  induction tokens generalizing position with
  | nil => simp
  | cons token rest inductionHypothesis =>
    have noMark := unmarked_of_marks_eq_nil unmarked token List.mem_cons_self
    have placed : Builder.step source ⟨position, [], root⟩ token =
        pure ⟨position + Text.size token.written, [], root⟩ := by
      cases token <;> first | rfl | cases noMark
    rw [marks_cons_of_none noMark] at unmarked
    rw [List.foldlM_cons, placed, pure_bind, inductionHypothesis unmarked, writtenOf_cons,
      Text.size_append, Nat.add_assoc]

/-- Where nothing is open and no root stands, an element becomes the root. -/
theorem foldlM_of_derivesElement {source : List Char} {offset : Nat} {tokens : List Token}
    {node : Node} (derives : DerivesElement source offset tokens node) :
    tokens.foldlM (Builder.step source) ⟨offset, [], none⟩ =
      pure ⟨offset + Text.size (writtenOf tokens), [], some node⟩ := by
  cases derives with
  | single body =>
    have placed : Builder.step source ⟨offset, [], none⟩ (.selfClosing body) =
        pure ⟨offset + Text.size (Token.selfClosing body).written, [],
          some (.element (singleTag offset body) [])⟩ := rfl
    simp [placed]
  | @pair opening closing inside children sameName within =>
    have opened : Builder.step source ⟨offset, [], none⟩ (.opening opening) =
        pure (inElement (innerStart offset opening)
          ⟨tagName opening, offset, innerStart offset opening, []⟩ [] none) := rfl
    have closed : Builder.step source
        (inElement (closeStart offset opening inside)
          ⟨closingName closing, offset, innerStart offset opening, children.reverse⟩ [] none)
        (.closing closing) =
        pure ⟨closeStop offset opening inside closing, [], some (.element
          ⟨closingName closing, false, .between offset (closeStop offset opening inside closing),
            .between (innerStart offset opening) (closeStart offset opening inside)⟩
          children.reverse.reverse)⟩ := by
      simp only [Builder.step, inElement, Builder.close, ne_eq, not_true_eq_false, ↓reduceIte]
      rfl
    rw [List.foldlM_cons, opened, pure_bind, List.foldlM_append, foldlM_of_derives within,
      pure_bind, List.foldlM_cons]
    simp only [withNodes, List.append_nil, sameName]
    rw [← closeStart, closed, pure_bind, List.foldlM_nil]
    simp [closeStop, closeStart, innerStart, elementTag, sameName, Nat.add_assoc]

/-! ### Every element has a derivation -/

theorem Derives.append_unmarked {source : List Char} {before tokens : List Token}
    (unmarked : ∀ token ∈ before, token.mark? = none)
    (derives : ∀ offset, ∃ nodes, Derives source offset tokens nodes) (offset : Nat) :
    ∃ nodes, Derives source offset (before ++ tokens) nodes := by
  induction before generalizing offset with
  | nil => exact derives offset
  | cons token rest inductionHypothesis =>
    obtain ⟨noMark, unmarkedRest⟩ := List.forall_mem_cons.mp unmarked
    obtain ⟨nodes, behind⟩ :=
      inductionHypothesis unmarkedRest (offset + Text.size token.written)
    cases token with
    | text run => exact ⟨_, .text behind⟩
    | literal content => exact ⟨_, .literal behind⟩
    | aside written => exact ⟨_, .aside behind⟩
    | _ => cases noMark

theorem Token.mark?_eq_opens {token : Token} {name : String}
    (marked : token.mark? = some (.opens name)) :
    ∃ body, token = .opening body ∧ tagName body = name := by
  cases token <;> simp_all [Token.mark?]

theorem Token.mark?_eq_stands {token : Token} {name : String}
    (marked : token.mark? = some (.stands name)) :
    ∃ body, token = .selfClosing body ∧ tagName body = name := by
  cases token <;> simp_all [Token.mark?]

theorem Token.mark?_eq_closes {token : Token} {name : String}
    (marked : token.mark? = some (.closes name)) :
    ∃ body, token = .closing body ∧ closingName body = name := by
  cases token <;> simp_all [Token.mark?]

/-- Tokens whose marks begin with a tag's have that tag as their first. -/
theorem marks_eq_cons {tokens : List Token} {mark : Mark} {rest : List Mark}
    (begins : marks tokens = mark :: rest) :
    ∃ before token after, tokens = before ++ token :: after ∧ marks before = [] ∧
      token.mark? = some mark ∧ marks after = rest := by
  obtain ⟨before, token, after, whole, unmarked, marked, behind⟩ :=
    List.filterMap_eq_cons_iff.mp begins
  exact ⟨before, token, after, whole, List.filterMap_eq_nil_iff.mpr unmarked, marked, behind⟩

/-- Tokens whose marks are contents are derived, wherever they stand. -/
theorem exists_derives (source : List Char) {content : List Mark} (contents : Contents content)
    {tokens : List Token} (same : marks tokens = content) (offset : Nat) :
    ∃ nodes, Derives source offset tokens nodes := by
  induction contents generalizing tokens offset with
  | nil =>
    have derived := Derives.append_unmarked (unmarked_of_marks_eq_nil same)
      (fun offset => ⟨[], (.nil offset : Derives source offset [] [])⟩) offset
    rwa [List.append_nil] at derived
  | stands name _ inductionHypothesis =>
    obtain ⟨before, token, after, rfl, unmarked, marked, behind⟩ := marks_eq_cons same
    obtain ⟨body, rfl, rfl⟩ := Token.mark?_eq_stands marked
    refine Derives.append_unmarked (unmarked_of_marks_eq_nil unmarked) (fun place => ?_) offset
    obtain ⟨nodes, derives⟩ := inductionHypothesis behind _
    exact ⟨_, .single derives⟩
  | pair name _ _ withinHypothesis inductionHypothesis =>
    obtain ⟨before, token, others, rfl, unmarked, marked, further⟩ := marks_eq_cons same
    obtain ⟨opening, rfl, rfl⟩ := Token.mark?_eq_opens marked
    obtain ⟨inside, closes, rfl, within, further⟩ := List.filterMap_eq_append_iff.mp further
    obtain ⟨blanks, token, after, rfl, unmarkedBlanks, marked, behind⟩ := marks_eq_cons further
    obtain ⟨closing, rfl, sameName⟩ := Token.mark?_eq_closes marked
    refine Derives.append_unmarked (unmarked_of_marks_eq_nil unmarked) (fun place => ?_) offset
    -- What stands between the last mark inside and the closing tag still belongs inside.
    have insideBlanks : marks (inside ++ blanks) = marks inside := by
      rw [marks_append, unmarkedBlanks, List.append_nil]
    obtain ⟨children, derivesInside⟩ := withinHypothesis (insideBlanks.trans within) _
    obtain ⟨nodes, derives⟩ := inductionHypothesis behind _
    exact ⟨_, by simpa using Derives.pair sameName.symm derivesInside derives⟩

/-- Tokens whose marks are one element have a tree. -/
theorem exists_derived (source : List Char) {tokens : List Token}
    (one : OneElement (marks tokens)) : ∃ tree, Derived source tokens tree := by
  generalize same : marks tokens = element at one
  cases one with
  | stands name =>
    obtain ⟨before, token, after, rfl, unmarked, marked, behind⟩ := marks_eq_cons same
    obtain ⟨body, rfl, rfl⟩ := Token.mark?_eq_stands marked
    exact ⟨⟨_⟩, before, [.selfClosing body], after, by simp, unmarked, behind, .single body⟩
  | pair name within =>
    obtain ⟨before, token, others, rfl, unmarked, marked, further⟩ := marks_eq_cons same
    obtain ⟨opening, rfl, rfl⟩ := Token.mark?_eq_opens marked
    obtain ⟨inside, closes, rfl, insideMarks, further⟩ := List.filterMap_eq_append_iff.mp further
    obtain ⟨blanks, token, after, rfl, unmarkedBlanks, marked, behind⟩ := marks_eq_cons further
    obtain ⟨closing, rfl, sameName⟩ := Token.mark?_eq_closes marked
    have insideBlanks : marks (inside ++ blanks) = marks inside := by
      rw [marks_append, unmarkedBlanks, List.append_nil]
    obtain ⟨children, derives⟩ := exists_derives source within (insideBlanks.trans insideMarks) _
    exact ⟨⟨_⟩, before, .opening opening :: (inside ++ blanks ++ [.closing closing]), after,
      by simp, unmarked, behind, .pair sameName.symm derives⟩

end Markup

end PomLens
