/-
This file proves that the spans of a parsed tree denote what the nodes were read from.

Every node was read from tokens that have their place among all tokens (`ReadFrom`), so what is
known of a token is known of the characters under a node's spans. The spans count from behind a
byte order mark. In a text without one they denote the text itself, and the span of a node's text
holds just that text. In a text with a mark every span of the tree lies three bytes too early.
-/

import Mathlib.Data.List.Infix
import PomLens.Proofs.Markup.Numbering
import PomLens.Proofs.Markup.Standing
import PomLens.Proofs.Markup.Verdict
import PomLens.Proofs.Text.Cutting

namespace PomLens.Markup

open Piece (innerStart singleTag literalNode)
open Text (StandsAt)

/-! ### Nodes and their tokens -/

/-- A node was read from some tokens in their place among all the tokens. -/
inductive ReadFrom (source : List Char) (tokens : List Token) : Node → Prop
  | text {before after : List Token} {run : List Char}
      (whole : tokens = before ++ .text run :: after) :
      ReadFrom source tokens (runNode source (Text.size (writtenOf before)) run)
  | literal {before after : List Token} {content : List Char}
      (whole : tokens = before ++ .literal content :: after) :
      ReadFrom source tokens (literalNode source (Text.size (writtenOf before)) content)
  | single {before after : List Token} {body : List Char}
      (whole : tokens = before ++ .selfClosing body :: after) :
      ReadFrom source tokens (.element (singleTag (Text.size (writtenOf before)) body) [])
  | pair {before inside after : List Token} {opening closing : List Char} {children : List Node}
      (sameName : tagName opening = closingName closing)
      (whole : tokens = before ++ .opening opening :: (inside ++ .closing closing :: after)) :
      ReadFrom source tokens
        (.element (elementTag (Text.size (writtenOf before)) opening inside closing) children)

/-- Every node of a derivation was read from tokens, if the derivation starts where the tokens
before it end. -/
theorem Derives.readFrom {source : List Char} {tokens before middle after : List Token}
    {offset : Nat} {nodes : List Node} (derives : Derives source offset middle nodes)
    (whole : tokens = before ++ (middle ++ after))
    (starts : Text.size (writtenOf before) = offset) :
    EachNode (ReadFrom source tokens) nodes := by
  induction derives generalizing before after with
  | nil offset => exact eachNode_nil _
  | @text offset run rest nodes _ inductionHypothesis =>
    subst starts
    have behind : tokens = (before ++ [.text run]) ++ (rest ++ after) := by simp [whole]
    exact .cons (.text whole) (eachNode_nil _)
      (inductionHypothesis behind (by simp [Token.written]))
  | @literal offset content rest nodes _ inductionHypothesis =>
    subst starts
    have behind : tokens = (before ++ [.literal content]) ++ (rest ++ after) := by simp [whole]
    exact .cons (.literal whole) (eachNode_nil _) (inductionHypothesis behind (by simp))
  | @aside offset written rest nodes _ inductionHypothesis =>
    subst starts
    have behind : tokens = (before ++ [.aside written]) ++ (rest ++ after) := by simp [whole]
    exact inductionHypothesis behind (by simp [Token.written])
  | @single offset body rest nodes _ inductionHypothesis =>
    subst starts
    have behind : tokens = (before ++ [.selfClosing body]) ++ (rest ++ after) := by simp [whole]
    exact .cons (.single whole) (eachNode_nil _) (inductionHypothesis behind (by simp))
  | @pair offset opening closing inside rest children nodes sameName _ _ withinHypothesis
      inductionHypothesis =>
    subst starts
    have element : tokens =
        before ++ .opening opening :: (inside ++ .closing closing :: (rest ++ after)) := by
      simp [whole]
    have within : tokens =
        (before ++ [.opening opening]) ++ (inside ++ .closing closing :: (rest ++ after)) := by
      simp [whole]
    have behind : tokens =
        (before ++ .opening opening :: (inside ++ [.closing closing])) ++ (rest ++ after) := by
      simp [whole]
    exact .cons (.pair sameName element) (withinHypothesis within (by simp [innerStart]))
      (inductionHypothesis behind (by simp [closeStop, closeStart, innerStart, Nat.add_assoc]))

theorem DerivesElement.readFrom {source : List Char} {tokens before middle after : List Token}
    {node : Node} (derives : DerivesElement source (Text.size (writtenOf before)) middle node)
    (whole : tokens = before ++ (middle ++ after)) :
    EachNode (ReadFrom source tokens) [node] := by
  cases derives with
  | single body => exact .cons (.single whole) (eachNode_nil _) (eachNode_nil _)
  | @pair opening closing inside children sameName within =>
    have element : tokens =
        before ++ .opening opening :: (inside ++ .closing closing :: after) := by
      simp [whole]
    have inPlace : tokens =
        (before ++ [.opening opening]) ++ (inside ++ .closing closing :: after) := by
      simp [whole]
    exact .cons (.pair sameName element) (within.readFrom inPlace (by simp [innerStart]))
      (eachNode_nil _)

theorem Tree.readFrom_of_parse {text : String} {tree : Tree}
    (parsed : Tree.parse text = .ok tree) :
    ∀ place ∈ tree.places, ReadFrom text.toList (tokensOf text) place.node := by
  obtain ⟨before, element, after, whole, _, _, derives⟩ := derived_of_parse parsed
  rw [tree.places_eq]
  exact derives.readFrom (by rw [whole, List.append_assoc]) [] 0

/-! ### Tokens in the text -/

theorem writtenOf_tokensOf {text : String} {tree : Tree} (parsed : Tree.parse text = .ok tree) :
    writtenOf (tokensOf text) = withoutMark text.toList := by
  obtain ⟨_, _, complete, _⟩ := parse_inversion parsed
  rw [writtenOf, List.flatMap_def, tokensOf, written_tokens_of_scan complete]

/-- What some tokens were read from stands behind what the tokens before them were read from. -/
theorem standsAt_writtenOf {tokens before middle after : List Token}
    (split : tokens = before ++ (middle ++ after)) :
    StandsAt (writtenOf tokens) (Text.size (writtenOf before)) (writtenOf middle) :=
  ⟨writtenOf before, writtenOf after, by simp [split], rfl⟩

theorem standsAt_written {tokens before after : List Token} {token : Token}
    (split : tokens = before ++ token :: after) :
    StandsAt (writtenOf tokens) (Text.size (writtenOf before)) token.written := by
  have single : tokens = before ++ ([token] ++ after) := split
  simpa using standsAt_writtenOf single

/-! ### What stands in a tag -/

/-- What stands between the brackets of an opening tag: the name, and behind it nothing, or a
blank and whatever else. -/
def Heads (name : String) (body : List Char) : Prop :=
  ∃ others, body = name.toList ++ others ∧ ∀ char, others.head? = some char → isTagBlank char

theorem heads_tagName (body : List Char) : Heads (tagName body) body := by
  refine ⟨body.dropWhile fun char => !isTagBlank char, ?_, fun char head => ?_⟩
  · rw [tagName, String.toList_ofList, List.takeWhile_append_dropWhile]
  · have stopped := List.head?_dropWhile_not (fun char => !isTagBlank char) body
    rw [head] at stopped
    simpa using stopped

/-- A closing tag holds the name, and behind it blanks. -/
theorem exists_eq_closingName_append (body : List Char) :
    ∃ blanks, body = (closingName body).toList ++ blanks ∧ blanks.all isTagBlank := by
  rw [closingName, String.toList_ofList]
  split
  · exact ⟨[], by simp, rfl⟩
  · exact Text.exists_eq_dropEndWhile_append isTagBlank body

theorem readDeclaration_unmarked {text after : List Char} {token : Token}
    (read : readDeclaration text = .ok (token, after)) : token.mark? = none := by
  unfold readDeclaration at read
  simp only at read
  repeat' split at read
  all_goals cases read
  all_goals rfl

theorem readInstruction_unmarked {text after : List Char} {token : Token}
    (read : readInstruction text = .ok (token, after)) : token.mark? = none := by
  unfold readInstruction at read
  repeat' split at read
  all_goals cases read
  rfl

/-- A tag ends at its last bracket and not before. -/
theorem untilTagEnd?_of_delimited {token : Token} {mark : Mark} {body : List Char}
    (delimited : token.Delimited) (marked : token.mark? = some mark)
    (written : token.written = '<' :: body ++ ['>']) :
    untilTagEnd? none (body ++ ['>']) = some (body, []) := by
  obtain ⟨first, rest, same, again⟩ := delimited
  have read := again []
  obtain ⟨rfl, rfl⟩ : '<' = first ∧ body ++ ['>'] = rest := by simpa [written] using same
  simp only [next, ne_eq, not_true_eq_false, ↓reduceIte, List.append_nil] at read
  split at read
  · cases marked.symm.trans (readDeclaration_unmarked read)
  · cases marked.symm.trans (readInstruction_unmarked read)
  · obtain ⟨inner, found, rfl⟩ := readTag_eq_ok_iff.mp read
    rw [Token.written_ofTag] at written
    obtain rfl : inner = body := by simpa using written
    exact found

/-! ### What stands in a literal section -/

/-- A search for an end does not go past an end. -/
theorem untilClose?_length_le {closes : List Char → Bool}
    {seen first second before after : List Char}
    (found : untilClose? closes seen (first ++ '>' :: second) = some (before, after))
    (closed : closes (first.reverse ++ seen)) : before.length ≤ seen.length + first.length := by
  induction first generalizing seen with
  | nil =>
    have ends : closes seen := by simpa using closed
    obtain ⟨rfl, -⟩ : seen.reverse = before ∧ second = after := by
      simpa [untilClose?, ends] using found
    simp
  | cons head tail inductionHypothesis =>
    rw [List.cons_append, untilClose?] at found
    split at found
    · obtain ⟨rfl, -⟩ : seen.reverse = before ∧ tail ++ '>' :: second = after := by
        simpa using found
      simp
    · have shorter := inductionHypothesis found (by simpa using closed)
      simp only [List.length_cons] at shorter ⊢
      omega

/-- A literal section ends at the first place where it can. -/
theorem not_end_infix_of_delimited {content : List Char}
    (delimited : (Token.literal content).Delimited) : ¬ [']', ']', '>'] <:+: content := by
  rintro ⟨first, second, rfl⟩
  obtain ⟨head, rest, same, again⟩ := delimited
  have read := again []
  simp only [Token.written, literalStart_eq, List.cons_append, List.cons.injEq] at same
  obtain ⟨rfl, rfl⟩ := same
  simp only [next, readDeclaration, ne_eq, not_true_eq_false, ↓reduceIte, List.cons_append] at read
  split at read
  · cases read
  · next inner after found =>
    -- The search stopped at the first pair of brackets or earlier, so it has not seen them all.
    have reached : untilClose? closesLiteral []
        ((literalStart ++ first ++ [']', ']']) ++ '>' :: (second ++ "]]>".toList)) =
        some (inner, after) := by
      simpa [literalStart_eq] using found
    have shorter := untilClose?_length_le reached (by simp [closesLiteral])
    split at read
    · cases read
    · next core started =>
      split at read
      · cases read
      · next content ended =>
        cases read
        rw [Text.afterPrefix?_eq_some_iff.mp started,
          Text.beforeSuffix?_eq_some_iff.mp ended] at shorter
        simp at shorter

/-! ### What spans denote -/

/-- The spans of an element denote its characters in a text. -/
inductive Tag.Denotes (text : List Char) (tag : Tag) : Prop
  /-- A self-closing element, its inside the point before the slash. -/
  | single {body : List Char} (alone : tag.selfClosing = true) (heads : Heads tag.name body)
      (ends : untilTagEnd? none (body ++ ['/', '>']) = some (body ++ ['/'], []))
      (range : tag.range.slice? text = some ('<' :: body ++ ['/', '>']))
      (point : tag.inner = .point (tag.range.stop - 2))
      (inner : tag.inner.slice? text = some [])
  /-- An opening tag up to its own end, what stands inside, and a closing tag with the same name
  and blanks. -/
  | pair {body inside blanks : List Char} (apart : tag.selfClosing = false)
      (heads : Heads tag.name body) (ends : untilTagEnd? none (body ++ ['>']) = some (body, []))
      (allBlank : blanks.all isTagBlank)
      (range : tag.range.slice? text = some ('<' :: body ++ ['>'] ++ inside ++
        ('<' :: '/' :: (tag.name.toList ++ blanks) ++ ['>'])))
      (innerStart : tag.inner.start = tag.range.start + Text.size ('<' :: body ++ ['>']))
      (inner : tag.inner.slice? text = some inside)
      (closing : (Span.between tag.inner.stop tag.range.stop).slice? text =
        some ('<' :: '/' :: (tag.name.toList ++ blanks) ++ ['>']))

/-- A span is that of one run of data, as long as it can be, or of one literal section. -/
inductive SpansData (text : List Char) (range : Span) : Prop
  | run {before after : List Token} {data : List Char}
      (tokens : (scan text).1 = before ++ .text data :: after)
      (start : range.start = Text.size (writtenOf before))
      (covered : range.slice? text = some data)
      (nonempty : data ≠ []) (noMarkup : '<' ∉ data)
      (markupBefore : ∀ other, before.getLast? ≠ some (.text other))
      (markupBehind : ∀ other, after.head? ≠ some (.text other))
  | literal {before after : List Token} {content : List Char}
      (tokens : (scan text).1 = before ++ .literal content :: after)
      (start : range.start = Text.size (writtenOf before))
      (covered : range.slice? text = some ("<![CDATA[".toList ++ content ++ "]]>".toList))
      (oneEnd : ¬ [']', ']', '>'] <:+: content)

/-- The spans of a node denote what it was read from. -/
def Node.Denotes (text : List Char) : Node → Prop
  | .text run => SpansData text run.range
  | .element tag _ => tag.Denotes text

theorem denotes_single {text : List Char} {offset : Nat} {body : List Char}
    (stands : StandsAt text offset (Token.selfClosing body).written)
    (delimited : (Token.selfClosing body).Delimited) : (singleTag offset body).Denotes text := by
  have range := stands.slice?
  refine .single rfl (heads_tagName body) ?_ range ?_ ?_
  · have written : (Token.selfClosing body).written = '<' :: (body ++ ['/']) ++ ['>'] := by
      simp [Token.written]
    simpa using untilTagEnd?_of_delimited delimited rfl written
  · simp [singleTag]
  · -- Before the slash the characters of the body have been passed.
    have whole : StandsAt text offset (('<' :: body) ++ ([] ++ ['/', '>'])) := by
      simpa [Token.written] using stands
    have point : StandsAt text (offset + Text.size ('<' :: body)) [] := whole.right.left
    have bracket : ('/' : Char).utf8Size = 1 ∧ ('>' : Char).utf8Size = 1 := by decide
    have stop : offset + Text.size (Token.selfClosing body).written - 2 =
        offset + Text.size ('<' :: body) := by
      simp [Token.written, bracket]
      omega
    have inner := point.slice?
    rw [singleTag, stop]
    simpa [Span.between, Span.point] using inner

theorem denotes_pair {text : List Char} {offset : Nat} {opening closing : List Char}
    {inside : List Token} (sameName : tagName opening = closingName closing)
    (stands : StandsAt text offset
      ((Token.opening opening).written ++
        (writtenOf inside ++ (Token.closing closing).written)))
    (delimited : (Token.opening opening).Delimited) :
    (elementTag offset opening inside closing).Denotes text := by
  obtain ⟨blanks, split, allBlank⟩ := exists_eq_closingName_append closing
  have closes : '<' :: '/' ::
      ((elementTag offset opening inside closing).name.toList ++ blanks) ++ ['>'] =
      (Token.closing closing).written := by
    rw [elementTag, sameName, ← split, Token.written]
  have range := stands.slice?
  have inner := stands.right.left.slice?
  have closed := stands.right.right.slice?
  have ends : untilTagEnd? none (opening ++ ['>']) = some (opening, []) :=
    untilTagEnd?_of_delimited delimited rfl rfl
  have stop : (elementTag offset opening inside closing).range.stop =
      closeStop offset opening inside closing := by
    simp [elementTag, closeStop, closeStart, innerStart, Nat.add_assoc]
  refine .pair rfl (heads_tagName opening) ends allBlank ?_ rfl inner ?_
  · rw [closes, elementTag]
    simpa [closeStop, closeStart, innerStart, Nat.add_assoc, Token.written] using range
  · rw [closes, stop, elementTag, closeStop, closeStart]
    simpa [innerStart] using closed

/-- The run at a place among a scan's tokens has markup on both sides. -/
theorem spansData_run {text data : List Char} {before after : List Token}
    (tokens : (scan text).1 = before ++ .text data :: after)
    (covered : (Span.between (Text.size (writtenOf before))
      (Text.size (writtenOf before) + Text.size data)).slice? text = some data) :
    SpansData text (.between (Text.size (writtenOf before))
      (Text.size (writtenOf before) + Text.size data)) := by
  obtain ⟨legible, alternating⟩ := scan_legible text
  rw [tokens] at legible alternating
  obtain ⟨nonempty, noMarkup⟩ : data ≠ [] ∧ '<' ∉ data :=
    legible (.text data) (List.mem_append_right _ List.mem_cons_self)
  obtain ⟨-, fromRun, seam⟩ := List.isChain_append.mp alternating
  refine .run tokens rfl covered nonempty noMarkup (fun other last => ?_) fun other head => ?_
  · exact seam _ last _ rfl other rfl data rfl
  · exact (List.isChain_cons.mp fromRun).1 _ head data rfl other rfl

/-- A node denotes the tokens it was read from. -/
theorem ReadFrom.denotes {source text : List Char} {node : Node}
    (readFrom : ReadFrom source (scan text).1 node) (whole : writtenOf (scan text).1 = text) :
    node.Denotes text := by
  have legible := (scan_legible text).1
  generalize same : (scan text).1 = tokens at readFrom whole legible
  cases readFrom with
  | @text before after run split =>
    have covered := (standsAt_written split).slice?
    rw [whole] at covered
    rw [runNode, Node.Denotes, TextRun.range_ofSpan]
    exact spansData_run (same.trans split) covered
  | @literal before after content split =>
    have covered := (standsAt_written split).slice?
    rw [whole] at covered
    have delimited : (Token.literal content).Delimited :=
      legible (.literal content) (by rw [split]; simp)
    rw [literalNode, Node.Denotes, TextRun.range_ofSpan]
    exact .literal (same.trans split) rfl covered (not_end_infix_of_delimited delimited)
  | @single before after body split =>
    have inPlace := standsAt_written split
    rw [whole] at inPlace
    exact denotes_single inPlace (legible (.selfClosing body) (by rw [split]; simp))
  | @pair before inside after opening closing children sameName split =>
    have element : tokens =
        before ++ ((.opening opening :: (inside ++ [.closing closing])) ++ after) := by
      simp [split]
    have inPlace := standsAt_writtenOf element
    rw [whole] at inPlace
    exact denotes_pair sameName (by simpa using inPlace)
      (legible (.opening opening) (by rw [split]; simp))

/-! ### Where texts stand -/

/-- The body of a run holds its value. -/
def TextRun.Holds (source : List Char) (run : TextRun) : Prop :=
  run.body.slice? source = some run.value.toList

theorem slice?_point {span : Span} {text chars : List Char}
    (covered : span.slice? text = some chars) :
    (Span.point span.start).slice? text = some [] := by
  rw [Span.slice?] at covered
  obtain ⟨⟨before, rest⟩, found, -⟩ := Option.bind_eq_some_iff.mp covered
  have nothing : Text.cut? 0 rest = some ([], rest) := Text.cut?_eq_some_iff.mpr ⟨rfl, rfl⟩
  simp [Span.slice?, Span.point, Span.length, found, nothing]

theorem slice?_of_isEmpty {span : Span} {text chars : List Char}
    (covered : span.slice? text = some chars) (nothing : span.isEmpty) : chars = [] := by
  have same : Span.point span.start = span :=
    Span.ext rfl (by simpa [Span.isEmpty, Span.point] using nothing)
  have point := slice?_point covered
  rw [same, covered] at point
  exact Option.some.inj point

/-- What is left of data without blanks at either end stands among them. -/
theorem standsAt_trim {source data : List Char} {offset : Nat} (stands : StandsAt source offset data) :
    StandsAt source (offset + (Text.size data - Text.size (Text.trimStart data)))
      (Text.trim data) := by
  obtain ⟨trail, ending, -⟩ := Text.exists_eq_dropEndWhile_append Text.isBlank (Text.trimStart data)
  have beginning : data.takeWhile Text.isBlank ++ Text.trimStart data = data :=
    List.takeWhile_append_dropWhile
  have lead : Text.size data - Text.size (Text.trimStart data) =
      Text.size (data.takeWhile Text.isBlank) := by
    have sizes := congrArg Text.size beginning
    rw [Text.size_append] at sizes
    omega
  rw [lead]
  rw [← beginning, ending] at stands
  exact stands.right.left

/-- So the body of the run that is made of data holds what is left of them. -/
theorem holds_ofSpan {source data : List Char} {offset : Nat} (stands : StandsAt source offset data)
    (range : Span) :
    (TextRun.ofSpan source range (.between offset (offset + Text.size data))).Holds source := by
  simp only [TextRun.Holds, TextRun.ofSpan, stands.slice?, String.toList_ofList, Span.start_between]
  exact (standsAt_trim stands).slice?

theorem ReadFrom.holds {source : List Char} {tokens : List Token} {run : TextRun}
    (readFrom : ReadFrom source tokens (.text run)) (whole : writtenOf tokens = source) :
    run.Holds source := by
  generalize same : Node.text run = node at readFrom
  cases readFrom with
  | @text before after data split =>
    have inPlace := standsAt_written split
    rw [whole] at inPlace
    obtain rfl := Node.text.inj same
    exact holds_ofSpan inPlace _
  | @literal before after content split =>
    have inPlace := standsAt_written split
    rw [whole] at inPlace
    obtain ⟨range, place, literal, stands⟩ := Piece.literalNode_eq inPlace
    rw [literal] at same
    obtain rfl := Node.text.inj same
    exact holds_ofSpan stands.left range
  | single => cases same
  | pair => cases same

theorem Node.run?_eq_some {node : Node} {run : TextRun} (shown : node.run? = some run) :
    node = .text run := by
  cases node with
  | element tag children => cases shown
  | text other =>
    rw [Node.run?] at shown
    split at shown
    · cases shown
    · exact congrArg Node.text (Option.some.inj shown)

/-! ### Spans of parsed trees -/

theorem Tree.denotes_of_mem {text : String} {tree : Tree} (parsed : Tree.parse text = .ok tree)
    {place : Place} (member : place ∈ tree.places) :
    place.node.Denotes (withoutMark text.toList) :=
  (Tree.readFrom_of_parse parsed place member).denotes (writtenOf_tokensOf parsed)

/-- In a text without a mark the span of a node's text holds this text. -/
theorem Tree.textSpan_slice? {text : String} {tree : Tree} (parsed : Tree.parse text = .ok tree)
    (unmarked : withoutMark text.toList = text.toList) {place : Place}
    (member : place ∈ tree.places) :
    place.node.textSpan.slice? text.toList = some (place.node.text?.getD "").toList := by
  have holds : ∀ other ∈ tree.places, ∀ run, other.node = .text run →
      run.Holds text.toList := by
    intro other otherIn run same
    have readFrom := Tree.readFrom_of_parse parsed other otherIn
    rw [same] at readFrom
    exact readFrom.holds ((writtenOf_tokensOf parsed).trans unmarked)
  cases same : place.node with
  | text run =>
    have body := holds place member run same
    by_cases empty : run.body.isEmpty
    · have nothing := slice?_of_isEmpty body empty
      rw [TextRun.Holds, nothing] at body
      simpa [Node.textSpan, Node.text?, Node.firstRun?, Node.run?, empty] using body
    · rw [TextRun.Holds] at body
      simpa [Node.textSpan, Node.text?, Node.firstRun?, Node.run?, empty] using body
  | element tag children =>
    cases first : children.findSome? Node.run? with
    | none =>
      have denotes := Tree.denotes_of_mem parsed member
      rw [same, unmarked] at denotes
      -- Without a text the span is the point where the inside starts.
      obtain ⟨inside, inner⟩ : ∃ inside, tag.inner.slice? text.toList = some inside := by
        cases denotes with
        | single _ _ _ _ _ inner => exact ⟨_, inner⟩
        | pair _ _ _ _ _ _ inner => exact ⟨_, inner⟩
      simpa [Node.textSpan, Node.text?, Node.firstRun?, first] using slice?_point inner
    | some run =>
      obtain ⟨child, isChild, shown⟩ := List.exists_of_findSome?_eq_some first
      have isNode : child ∈ place.node.children := by rwa [same]
      obtain ⟨other, otherIn, node⟩ := Place.exists_mem_children isNode
      have body := holds other ((Tree.children_sublist_places member).mem otherIn) run
        (node.trans (Node.run?_eq_some shown))
      rw [TextRun.Holds] at body
      simpa [Node.textSpan, Node.text?, Node.firstRun?, first] using body

/-- The spans of every node of a parsed tree denote what it was read from, as offsets into the text
behind its byte order mark. In a text without a mark they are offsets into the text itself, and
there the span of a node's text holds this text. -/
theorem Tree.denotes_of_parse {text : String} {tree : Tree}
    (parsed : Tree.parse text = .ok tree) :
    (∀ place ∈ tree.places, place.node.Denotes (withoutMark text.toList)) ∧
      (withoutMark text.toList = text.toList → ∀ place ∈ tree.places,
        place.node.textSpan.slice? text.toList = some (place.node.text?.getD "").toList) :=
  ⟨fun _ member => Tree.denotes_of_mem parsed member,
    fun unmarked _ member => Tree.textSpan_slice? parsed unmarked member⟩

/-- A text without a mark, and the same text behind one: in both the spans denote the text without
it. -/
theorem Tree.denotes_of_parse_twice :
    (∃ tree, Tree.parse "<a>x</a>" = .ok tree ∧
      (∀ place ∈ tree.places, place.node.Denotes "<a>x</a>".toList) ∧
      ∀ place ∈ tree.places, place.node.textSpan.slice? "<a>x</a>".toList =
        some (place.node.text?.getD "").toList) ∧
    ∃ tree, Tree.parse "\uFEFF<a>x</a>" = .ok tree ∧
      ∀ place ∈ tree.places, place.node.Denotes "<a>x</a>".toList := by
  constructor
  · have accepted : (Tree.parse "<a>x</a>").map (fun _ => ()) = .ok () := by decide +kernel
    obtain ⟨tree, parsed, -⟩ := Tree.exists_of_map_parse accepted
    have unmarked : withoutMark "<a>x</a>".toList = "<a>x</a>".toList := by decide +kernel
    obtain ⟨denotes, texts⟩ := Tree.denotes_of_parse parsed
    exact ⟨tree, parsed, unmarked ▸ denotes, texts unmarked⟩
  · have accepted : (Tree.parse "\uFEFF<a>x</a>").map (fun _ => ()) = .ok () := by
      decide +kernel
    obtain ⟨tree, parsed, -⟩ := Tree.exists_of_map_parse accepted
    have behindMark : withoutMark "\uFEFF<a>x</a>".toList = "<a>x</a>".toList := by
      decide +kernel
    exact ⟨tree, parsed, behindMark ▸ (Tree.denotes_of_parse parsed).1⟩

theorem Node.Denotes.starts {text : List Char} {node : Node} (denotes : node.Denotes text)
    (element : node.isText = false) : ∃ rest, node.range.slice? text = some ('<' :: rest) := by
  cases node with
  | text run => cases element
  | element tag children =>
    cases denotes with
    | single _ _ _ range => exact ⟨_, range⟩
    | pair _ _ _ _ range => exact ⟨_, range⟩

/-- The spans do not denote the marked text itself: the root's begins at the mark and ends in its
closing tag. -/
theorem Tree.not_denotes_marked :
    ∃ tree, Tree.parse "\uFEFF<a>x</a>" = .ok tree ∧
      ¬ ∀ place ∈ tree.places, place.node.Denotes "\uFEFF<a>x</a>".toList := by
  have answer : (Tree.parse "\uFEFF<a>x</a>").map (fun tree =>
      (tree.root.isText, tree.root.range.slice? "\uFEFF<a>x</a>".toList)) =
        .ok (false, some "\uFEFF<a>x<".toList) := by
    decide +kernel
  obtain ⟨tree, parsed, shown⟩ := Tree.exists_of_map_parse answer
  obtain ⟨element, slice⟩ := Prod.mk.inj shown
  refine ⟨tree, parsed, fun denotes => ?_⟩
  obtain ⟨rest, starts⟩ := (denotes _ tree.root_mem_places).starts element
  rw [slice] at starts
  exact absurd (congrArg (Option.map List.head?) starts) (by simp)

end PomLens.Markup
