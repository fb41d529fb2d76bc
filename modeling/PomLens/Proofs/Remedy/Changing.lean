/-
This file says what each edit of a remedy does to the tokens of a document.

An edit either takes an element away or writes a snippet into one (`Change`). Around an element that
goes away, and where a snippet is written, only blanks go as well. The exception is a self-closing
element that something is written into: its tag gives way to an opening tag with its name alone
(`Change.splices`).
-/

import PomLens.Proofs.Markup.Splicing
import PomLens.Proofs.Remedy.Placing

namespace PomLens

open Markup Markup.Piece
open Text (size blank)

/-- The edit writes something in place of a self-closing tag. -/
def Edit.Rewrites (text body : List Char) (edit : Edit) : Prop :=
  edit.text ≠ "" ∧ edit.span.slice? text = some (Token.selfClosing body).written

namespace Remedy

/-! ### Snippets have no attributes -/

theorem attributed_behind (run : List Char) (token : Token) (rest : List Token) :
    attributed (pending run ++ token :: rest) = attributed [token] + attributed rest := by
  rw [attributed_append, attributed_pending, Nat.zero_add, attributed_cons]

theorem attributed_tokens (run : List Char) (pieces : List Piece) :
    attributed (tokens run pieces) = attributed (tokens [] pieces) := by
  induction pieces using stretchInduction generalizing run with
  | nil => simp [tokens]
  | char one rest inductionHypothesis =>
    rw [tokens, tokens, inductionHypothesis, inductionHypothesis ([] ++ [one])]
  | _ => rw [tokens, tokens, attributed_behind, attributed_behind]

theorem attributed_tokens_append (first second : List Piece) :
    attributed (tokens [] (first ++ second)) =
      attributed (tokens [] first) + attributed (tokens [] second) := by
  induction first using stretchInduction with
  | nil => simp [tokens]
  | char one rest inductionHypothesis =>
    rw [List.cons_append, tokens, tokens, attributed_tokens, inductionHypothesis,
      ← attributed_tokens ([] ++ [one]) rest]
  | pair opening inside closing rest _ inductionHypothesis =>
    rw [List.cons_append, tokens, tokens, attributed_behind, attributed_behind, attributed_append,
      attributed_append, attributed_closing, attributed_closing, inductionHypothesis]
    omega
  | _ _ rest inductionHypothesis =>
    rw [List.cons_append, tokens, tokens, attributed_behind, attributed_behind,
      inductionHypothesis, Nat.add_assoc]

@[simp] theorem attributed_tokens_data (chars : List Char) :
    attributed (tokens [] (data chars)) = 0 := by
  induction chars with
  | nil => simp [tokens]
  | cons one rest inductionHypothesis =>
    rw [data, List.map_cons, tokens, ← data, attributed_tokens, inductionHypothesis]

/-- A tag that is only a name has no attributes. -/
theorem attributes_eq_nil {name : List Char} (noBlank : ∀ char ∈ name, isTagBlank char = false) :
    attributes name = [] := by
  have dropped : name.dropWhile (fun char => !isTagBlank char) = [] :=
    List.dropWhile_eq_nil_iff.mpr fun char member => by simp [noBlank char member]
  rw [attributes, dropped]
  rfl

theorem attributed_opening {name : List Char} (plain : plainName name) :
    attributed [.opening name] = 0 := by
  simp [attributed, Token.hasAttributes, attributes_eq_nil fun char => tagBlank_of_mem plain]

theorem attributed_pair {name : List Char} (plain : plainName name) (inside : List Piece) :
    attributed (tokens [] [.pair name inside name]) = attributed (tokens [] inside) := by
  rw [tokens, attributed_behind, attributed_append, attributed_opening plain, attributed_closing,
    tokens, attributed_pending, Nat.zero_add, Nat.add_zero]

mutual

theorem Snippet.attributed_piece (base : String) (style : Style) (level : Nat) (snippet : Snippet)
    (legible : snippet.Legible) :
    attributed (tokens [] [snippet.piece base style level]) = 0 := by
  cases snippet with
  | leaf name value =>
    rw [Snippet.Legible] at legible
    rw [Snippet.piece, attributed_pair legible.1, attributed_tokens_data]
  | branch name children =>
    rw [Snippet.Legible] at legible
    have inside := attributed_piecesOf base style (level + 1) children legible.2
    rw [Snippet.piece, attributed_pair legible.1, attributed_tokens_append, inside,
      attributed_tokens_data]

theorem attributed_piecesOf (base : String) (style : Style) (level : Nat)
    (snippets : List Snippet) (legible : LegibleAll snippets) :
    attributed (tokens [] (piecesOf base style level snippets)) = 0 := by
  cases snippets with
  | nil => simp [piecesOf, tokens]
  | cons snippet rest =>
    rw [LegibleAll] at legible
    have first := snippet.attributed_piece base style level legible.1
    have others := attributed_piecesOf base style level rest legible.2
    rw [piecesOf, attributed_tokens_append, attributed_tokens_data, ← List.singleton_append,
      attributed_tokens_append, first, others]

end

/-- What is written for a snippet is read as tokens without attributes, and so are the blanks that
may stand behind it. -/
theorem exists_tokens_of_snippet {snippet : Snippet} (legible : snippet.Legible) {base : String}
    {style : Style} (regular : style.Regular) (blankBase : blank base.toList = true)
    {chars : List Char} (blanks : blank chars = true) :
    ∃ new, writtenOf new = (snippet.render base style).toList ++ chars ∧
      (∀ token ∈ new, token.Legible) ∧ attributed new = 0 := by
  have sound : Sound (piecesOf base style 1 [snippet] ++ data chars) :=
    sound_append.mpr
      ⟨sound_piecesOf regular blankBase 1 [snippet] ⟨legible, trivial⟩, sound_of_blank blanks⟩
  have read := scan_written sound
  refine ⟨tokens [] (piecesOf base style 1 [snippet] ++ data chars), ?_, ?_, ?_⟩
  · have whole := written_tokens_of_scan (congrArg Prod.snd read)
    rw [read] at whole
    rw [writtenOf, List.flatMap_def, whole, written_append, written_data, Snippet.toList_render]
  · have legibleAll := (scan_legible (written (piecesOf base style 1 [snippet] ++ data chars))).1
    rwa [read] at legibleAll
  · rw [attributed_tokens_append, attributed_tokens_data,
      attributed_piecesOf base style 1 [snippet] ⟨legible, trivial⟩]

/-! ### One change -/

section

variable {document : Document} {tree : Tree} {removed : List Span}

/-- An edit of a remedy: it takes away an element that is to be removed, or writes a snippet into
an element with a plain name. -/
inductive Change (document : Document) (tree : Tree) (removed : List Span) : Edit → Prop
  | takes {element : Node} {edit : Edit} (has : tree.Has element)
      (isRemoved : element.range ∈ removed) (deleted : delete? document element = some edit) :
      Change document tree removed edit
  | writes {container : Node} {name : String} {snippet : Snippet} {style : Style} {edit : Edit}
      (has : tree.Has container) (named : container.name? = some name)
      (plain : plainName name.toList) (legible : snippet.Legible) (regular : style.Regular)
      (inserted : insertFirst? document container snippet style = some edit ∨
        insertLast? document container snippet style = some edit) :
      Change document tree removed edit

/-- The bits of a document. -/
def bitsOf (document : Document) (removed : List Span) : List Bit :=
  Bit.frayed (marked removed 0 (scan document.chars).1)

/-- The edit costs a tag its attributes. -/
def Costs (document : Document) (edit : Edit) : Prop :=
  ∃ body, edit.Rewrites document.chars body ∧ attributes body ≠ []

/-- The bits of tokens one behind the other. -/
theorem bitsOf_append {first middle last : List Token}
    (split : (scan document.chars).1 = first ++ (middle ++ last)) :
    bitsOf document removed = Bit.frayed (marked removed 0 first) ++
      (Bit.frayed (marked removed (size (writtenOf first)) middle) ++
        Bit.frayed (marked removed (size (writtenOf (first ++ middle))) last)) := by
  rw [bitsOf, split, marked_append, marked_append, Bit.frayed_append, Bit.frayed_append,
    Nat.zero_add, writtenOf_append, Text.size_append]

theorem written_bits (offset : Nat) (tokens : List Token) :
    Bit.written (Bit.frayed (marked removed offset tokens)) = writtenOf tokens := by
  rw [Bit.written_frayed, written_marked]

theorem cut_bits (offset : Nat) {tokens : List Token} (legible : ∀ token ∈ tokens, token.Legible) :
    ∀ bit ∈ Bit.frayed (marked removed offset tokens), bit.token.Legible ∧ bit.Cut := by
  refine cut_frayed fun bit member => legible bit.token ?_
  rw [← map_token_marked removed offset tokens]
  exact List.mem_map_of_mem member

/-- The tokens of a node stand where it does. -/
theorem exists_tokens_of_readFrom {source : List Char} {tokens : List Token} {node : Node}
    (readFrom : ReadFrom source tokens node) :
    ∃ first middle last, tokens = first ++ (middle ++ last) ∧
      node.range.start = size (writtenOf first) ∧
      node.range.stop = size (writtenOf first) + size (writtenOf middle) := by
  cases readFrom with
  | @text before after run whole =>
    exact ⟨before, [.text run], after, whole, by simp, by simp [Token.written]⟩
  | @literal before after content whole =>
    exact ⟨before, [.literal content], after, whole, by simp, by simp⟩
  | @single before after body whole =>
    exact ⟨before, [.selfClosing body], after, whole, rfl,
      by simp [Node.range, singleTag]⟩
  | @pair before inside after opening closing children sameName whole =>
    refine ⟨before, .opening opening :: (inside ++ [.closing closing]), after, by simp [whole], rfl,
      ?_⟩
    simp [Node.range, elementTag, closeStop, closeStart, innerStart, Nat.add_assoc]

/-- An element was read from one tag, or from two with tokens between them. -/
theorem tags_of_readFrom {source : List Char} {tokens : List Token} {node : Node} {name : String}
    (readFrom : ReadFrom source tokens node) (named : node.name? = some name) :
    (∃ before body after, tokens = before ++ ([.selfClosing body] ++ after) ∧ tagName body = name ∧
      node.isSelfClosing = true ∧ node.range = .between (size (writtenOf before))
        (size (writtenOf before) + size (Token.selfClosing body).written)) ∨
    ∃ before opening inside after, tokens = (before ++ [.opening opening]) ++ (inside ++ after) ∧
      node.isSelfClosing = false ∧
      node.inner.start = size (writtenOf (before ++ [.opening opening])) ∧
      node.inner.stop = size (writtenOf (before ++ [.opening opening] ++ inside)) := by
  cases readFrom with
  | text => cases named
  | literal => cases named
  | @single before after body whole =>
    exact Or.inl ⟨before, body, after, whole, Option.some.inj named, rfl, rfl⟩
  | @pair before inside after opening closing children sameName whole =>
    refine Or.inr ⟨before, opening, inside, .closing closing :: after, by simp [whole], rfl, ?_, ?_⟩
    · simp [Node.inner, elementTag, innerStart]
    · rw [Node.inner, elementTag, closeStart, Span.stop_between_add]
      simp [innerStart, Nat.add_assoc]

/-- An edit that covers only blanks rewrites no tag. -/
theorem not_rewrites_of_blank {text covered body : List Char} {edit : Edit}
    (slice : edit.span.slice? text = some covered) (blanks : blank covered = true) :
    ¬ edit.Rewrites text body := by
  rintro ⟨-, written⟩
  obtain rfl := Option.some.inj (slice.symm.trans written)
  exact absurd List.mem_cons_self (not_mem_of_blank blanks (by decide : Text.isBlank '<' = false))

theorem not_costs {edit : Edit} (none : ∀ body, ¬ edit.Rewrites document.chars body) :
    ¬ Costs document edit :=
  fun ⟨body, rewrites, _⟩ => none body rewrites

variable (parsed : Tree.parse document.text = .ok tree)
  (unmarked : withoutMark document.text.toList = document.text.toList)

include parsed unmarked

theorem tokens_of_parse :
    writtenOf (scan document.chars).1 = document.chars ∧
      ∀ node, tree.Has node → ReadFrom document.chars (scan document.chars).1 node := by
  have whole := writtenOf_tokensOf parsed
  rw [tokensOf, unmarked] at whole
  refine ⟨whole, fun node has => ?_⟩
  obtain ⟨place, inTree, rfl⟩ := has
  have readFrom := Tree.readFrom_of_parse parsed place inTree
  rwa [tokensOf, unmarked] at readFrom

variable {expands : List Char → List Char → Prop}

omit parsed unmarked in
/-- Blanks on both sides of some tokens are bits of their own. -/
theorem exists_around {first middle last : List Token}
    (split : (scan document.chars).1 = first ++ (middle ++ last)) {front lead tail back : List Char}
    (inFront : writtenOf first = front ++ lead) (behind : writtenOf last = tail ++ back)
    (blankLead : blank lead = true) (blankTail : blank tail = true) :
    ∃ before blanks blanks' after,
      bitsOf document removed = before ++
        ((blanks ++ (Bit.frayed (marked removed (size (writtenOf first)) middle) ++ blanks')) ++
          after) ∧
      Bit.written before = front ∧ Bit.written blanks = lead ∧ Bit.written blanks' = tail ∧
      ∀ bit ∈ blanks ++ blanks', bit.token.Loose := by
  have legible := (scan_legible document.chars).1
  rw [split] at legible
  obtain ⟨legibleFirst, legibleRest⟩ := List.forall_mem_append.mp legible
  have legibleLast := (List.forall_mem_append.mp legibleRest).2
  rw [← @written_bits removed 0] at inFront
  obtain ⟨before, blanks, splitFirst, writtenBefore, writtenBlanks, loose⟩ :=
    exists_loose_end (fun bit member => (cut_bits 0 legibleFirst bit member).2) inFront blankLead
  rw [← @written_bits removed (size (writtenOf (first ++ middle)))] at behind
  obtain ⟨blanks', after, splitLast, writtenBlanks', loose'⟩ :=
    exists_loose_front (fun bit member => (cut_bits _ legibleLast bit member).2) behind blankTail
  refine ⟨before, blanks, blanks', after, ?_, writtenBefore, writtenBlanks, writtenBlanks',
    List.forall_mem_append.mpr ⟨loose, loose'⟩⟩
  rw [bitsOf_append split, splitFirst, splitLast]
  simp only [List.append_assoc]

/-- An element is taken away with blanks around it at most. -/
theorem splices_delete {element : Node} (has : tree.Has element)
    (isRemoved : element.range ∈ removed) {edit : Edit}
    (deleted : delete? document element = some edit) :
    Splices expands (Costs document) (bitsOf document removed) edit := by
  obtain ⟨whole, readFrom⟩ := tokens_of_parse parsed unmarked
  obtain ⟨first, middle, last, split, start, stop⟩ := exists_tokens_of_readFrom (readFrom _ has)
  obtain ⟨front, lead, covered, tail, back, removes⟩ := exists_removes deleted
  -- What stands before the element and behind it, as characters and as tokens.
  rw [split, writtenOf_append, writtenOf_append, removes.whole, ← List.append_assoc front] at whole
  obtain ⟨inFront, rest⟩ := Text.append_inj_of_size whole (by rw [removes.start, start])
  obtain ⟨-, behind⟩ := Text.append_inj_of_size rest (by
    have := removes.stop
    rw [removes.start, stop, start] at this
    omega)
  obtain ⟨before, blanks, blanks', after, bits, writtenBefore, writtenBlanks, writtenBlanks',
    loose⟩ := exists_around split inFront behind removes.blankLead removes.blankTail
  have gone := Bit.kept_eq_nil (Bit.gone_frayed
    (gone_of_mem_marked isRemoved (Nat.le_of_eq start) (Nat.le_of_eq stop.symm)))
  have noText := congrArg Edit.text removes.edit
  refine ⟨before, _, after, [], bits, ?_, ?_, ?_, by simp, ?_, rfl, ?_⟩
  · rw [writtenBefore, removes.edit]
    rfl
  · have covers := removes.stop
    rw [removes.start, start, stop] at covers
    simp only [Bit.written_append, written_bits, writtenBefore, writtenBlanks, writtenBlanks',
      removes.edit, Edit.delete, Span.stop_between_add, Text.size_append]
    omega
  · rw [noText]
    rfl
  · rw [Bit.kept_append, Bit.kept_append, gone, List.nil_append, ← Bit.kept_append]
    exact survives_of_loose loose []
  · exact fun costs => absurd costs (not_costs fun body rewrites => rewrites.1 noText)

section

variable {container : Node} (has : tree.Has container) {name : String}
  (named : container.name? = some name) {snippet : Snippet} (legible : snippet.Legible)
  {style : Style} (regular : style.Regular)

include has named legible regular

/-- A snippet that is written first comes between two tokens, right behind the opening tag. -/
theorem splices_insertFirst (open_ : container.isSelfClosing = false) {edit : Edit}
    (inserted : insertFirst? document container snippet style = some edit) :
    Splices expands (Costs document) (bitsOf document removed) edit := by
  obtain ⟨whole, readFrom⟩ := tokens_of_parse parsed unmarked
  simp only [insertFirst?, open_, Bool.false_eq_true, ↓reduceIte] at inserted
  obtain ⟨base, isBase, inserted⟩ := Option.bind_eq_some_iff.mp inserted
  obtain rfl := Option.some.inj inserted
  obtain ⟨new, written, legibleNew, plain⟩ :=
    @exists_tokens_of_snippet _ legible _ _ regular (blank_baseIndent? isBase) [] rfl
  rcases tags_of_readFrom (readFrom _ has) named with
    ⟨_, _, _, -, -, closed, -⟩ | ⟨before, opening, inside, after, split, -, start, -⟩
  · cases open_.symm.trans closed
  have split' : (scan document.chars).1 =
      (before ++ [.opening opening]) ++ ([] ++ (inside ++ after)) := split
  have stands := standsAt_writtenOf split'
  rw [whole, ← start] at stands
  refine ⟨_, [], _, new, bitsOf_append split', ?_, ?_, written.trans (List.append_nil _),
    legibleNew, .none _, plain, fun costs => absurd costs (not_costs fun body => ?_)⟩
  · rw [written_bits, ← start]
    rfl
  · rw [written_bits, ← start]
    rfl
  · have slice : (Span.point container.inner.start).slice? document.chars = some [] := by
      simpa [Span.between, Span.point] using stands.slice?
    exact not_rewrites_of_blank slice rfl

/-- A snippet that is written last takes the place of blanks. -/
theorem splices_insertLast (open_ : container.isSelfClosing = false) {edit : Edit}
    (inserted : insertLast? document container snippet style = some edit) :
    Splices expands (Costs document) (bitsOf document removed) edit := by
  obtain ⟨whole, readFrom⟩ := tokens_of_parse parsed unmarked
  obtain ⟨blanks, areBlank, stands, reaches, stop, -, -⟩ :=
    insertLast?_open inserted (has.seated parsed unmarked) open_
  obtain ⟨base, blankBase, text⟩ : ∃ base : String, blank base.toList = true ∧
      edit.text = snippet.render base style ++ style.eol ++ base := by
    simp only [insertLast?, open_, Bool.false_eq_true, ↓reduceIte] at inserted
    obtain ⟨base, isBase, inserted⟩ := Option.bind_eq_some_iff.mp inserted
    obtain rfl := Option.some.inj inserted
    exact ⟨base, blank_baseIndent? isBase, rfl⟩
  obtain ⟨new, written, legibleNew, plain⟩ := exists_tokens_of_snippet legible regular blankBase
    (blank_append.mpr ⟨regular.blank_eol, blankBase⟩)
  rcases tags_of_readFrom (readFrom _ has) named with
    ⟨_, _, _, -, -, closed, -⟩ | ⟨before, opening, inside, after, split, -, -, ends⟩
  · cases open_.symm.trans closed
  have split' : (scan document.chars).1 =
      (before ++ [.opening opening] ++ inside) ++ ([] ++ after) := by simp [split]
  -- The blanks are at the end of what stands before the closing tag.
  obtain ⟨front, back, same, place⟩ := id stands
  rw [split', writtenOf_append, same, ← List.append_assoc] at whole
  obtain ⟨inFront, -⟩ := Text.append_inj_of_size whole (by
    rw [← ends, ← stop, reaches, ← place, Text.size_append])
  obtain ⟨kept, loose, nothing, rest, bits, writtenKept, writtenLoose, writtenNothing, areLoose⟩ :=
    @exists_around _ removed _ _ _ split' _ _ [] _ inFront rfl areBlank rfl
  have slice := stands.slice?
  have span : edit.span = .between edit.span.start (edit.span.start + size blanks) :=
    Span.ext rfl (by rw [Span.stop_between_add, reaches])
  rw [← span] at slice
  refine ⟨kept, _, rest, new, bits, ?_, ?_, ?_, legibleNew, survives_of_loose areLoose new, plain,
    fun costs => absurd costs (not_costs fun body => not_rewrites_of_blank slice areBlank)⟩
  · rw [writtenKept, place]
  · simp [Bit.written_append, written_bits, writtenKept, writtenLoose, writtenNothing, place,
      reaches]
  · rw [written, text, String.toList_append, String.toList_append, List.append_assoc]

omit parsed unmarked has in
/-- A self-closing element that is expanded becomes a pair of tags with its name alone, and the
snippet between them. -/
theorem exists_tokens_of_expand {edit : Edit}
    (expanded : expand? document container snippet style = some edit) :
    ∃ inside, edit.span = container.range ∧
      writtenOf (.opening name.toList :: (inside ++ [.closing name.toList])) = edit.text.toList ∧
      (∀ token ∈ inside, token.Legible) ∧ attributed inside = 0 := by
  rw [expand?] at expanded
  obtain ⟨base, isBase, expanded⟩ := Option.bind_eq_some_iff.mp expanded
  obtain rfl := Option.some.inj expanded
  have blankBase := blank_baseIndent? isBase
  obtain ⟨inside, written, legibleInside, bare⟩ := exists_tokens_of_snippet legible regular
    blankBase (blank_append.mpr ⟨regular.blank_eol, blankBase⟩)
  refine ⟨inside, rfl, ?_, legibleInside, bare⟩
  rw [named, writtenOf_cons, writtenOf_append, written]
  simp [toList_openingTag, toList_closingTag]

/-- A self-closing element survives as a pair of tags, but loses its attributes. -/
theorem splices_expand (closed : container.isSelfClosing = true) (plain : plainName name.toList)
    {edit : Edit} (expanded : expand? document container snippet style = some edit)
    (allowed : ∀ body, edit.Rewrites document.chars body → expands body (tagName body).toList)
    (free : ∀ body, edit.Rewrites document.chars body →
      ∀ span ∈ removed, span.encloses edit.span = false) :
    Splices expands (Costs document) (bitsOf document removed) edit := by
  obtain ⟨whole, readFrom⟩ := tokens_of_parse parsed unmarked
  obtain ⟨inside, span, text, legibleInside, bare⟩ :=
    exists_tokens_of_expand named legible regular expanded
  rcases tags_of_readFrom (readFrom _ has) named with
    ⟨before, body, after, split, rfl, -, range⟩ | ⟨_, _, _, _, -, open_, -, -⟩
  swap
  · cases open_.symm.trans closed
  rw [range] at span
  have stands := standsAt_writtenOf split
  rw [whole] at stands
  have slice : edit.span.slice? document.chars = some (Token.selfClosing body).written := by
    rw [span]
    simpa using stands.slice?
  have rewrites : edit.Rewrites document.chars body := by
    refine ⟨fun none => ?_, slice⟩
    rw [none] at text
    simp [Token.written] at text
  have stays : removed.any (fun other => other.encloses edit.span) = false :=
    List.any_eq_false.mpr fun other isRemoved => by simp [free body rewrites other isRemoved]
  have cut : Bit.frayed (marked removed (size (writtenOf before)) [.selfClosing body]) =
      [⟨.selfClosing body, false⟩] := by
    rw [marked, ← span, stays]
    rfl
  have kept : Bit.kept [⟨.selfClosing body, false⟩] = [.selfClosing body] := rfl
  have bits := @bitsOf_append _ removed _ _ _ split
  rw [cut] at bits
  have sameName : tagName (tagName body).toList = closingName (tagName body).toList :=
    (tagName_toList plain).trans (closingName_toList plain).symm
  refine ⟨_, _, _, _, bits, ?_, ?_, text, ?_, ?_, ?_, ?_⟩
  · rw [written_bits, span]
    rfl
  · rw [written_bits, span, Span.stop_between_add]
    simp [Bit.written]
  · simp only [List.forall_mem_cons, List.forall_mem_append]
    exact ⟨delimited_opening plain, legibleInside, delimited_closing plain, by simp⟩
  · rw [kept]
    exact .expanded inside (allowed body rewrites) sameName .nil
  · rw [attributed_cons, attributed_append, attributed_opening plain, bare, attributed_closing]
    rfl
  · rintro ⟨other, ⟨-, written⟩, some⟩
    have same := Option.some.inj (slice.symm.trans written)
    obtain rfl : body = other := by simpa [Token.written] using same
    rw [kept]
    simp [attributed, Token.hasAttributes, some]

end

/-- Every edit of a remedy splices the bits of the document. -/
theorem Change.splices {edit : Edit} (change : Change document tree removed edit)
    (allowed : ∀ body, edit.Rewrites document.chars body → expands body (tagName body).toList)
    (free : ∀ body, edit.Rewrites document.chars body →
      ∀ span ∈ removed, span.encloses edit.span = false) :
    Splices expands (Costs document) (bitsOf document removed) edit := by
  cases change with
  | takes has isRemoved deleted => exact splices_delete parsed unmarked has isRemoved deleted
  | @writes container name snippet style edit has named plain legible regular inserted =>
    cases closed : container.isSelfClosing with
    | false =>
      rcases inserted with first | last
      · exact splices_insertFirst parsed unmarked has named legible regular closed first
      · exact splices_insertLast parsed unmarked has named legible regular closed last
    | true =>
      have expanded : expand? document container snippet style = some edit := by
        simpa [insertFirst?, insertLast?, closed] using inserted
      exact splices_expand parsed unmarked has named legible regular closed plain expanded allowed
        free

end

end Remedy

end PomLens
