/-
This file proves what parsing answers to a text whose tokens can all be read.

The grammar of tags decides. If the marks of the tokens are one element, the answer is the tree of
their derivation. If they are not, there is a first tag with which no element can go on, and the
error names it; or there is none, and the error says what is missing at the end.

Beside the builder runs an account of how far an element has come: nothing, some open levels with
complete elements in each, or a complete element (`Progress`). A token is taken exactly if the
account can go on with it (`Stage.step`), so a run over all tokens ends either with the account of
all marks or at the token where the account stops (`Stage.run`).
-/

import PomLens.Proofs.Markup.Derivation
import PomLens.Proofs.Markup.Layout

namespace PomLens.Markup

/-! ### Beginnings of an element -/

/-- Some element begins with these marks. -/
def Viable (read : List Mark) : Prop :=
  ∃ rest, OneElement (read ++ rest)

/-- The innermost element that is still open has this name: what was read inside it is
complete. -/
def Innermost (read : List Mark) (name : String) : Prop :=
  ∃ before content, read = before ++ .opens name :: content ∧ Contents content

/-- The names of the open elements behind some marks, the innermost first, given those before.
There are none to give if a closing tag does not close the innermost. -/
def openAfter? (names : List String) : List Mark → Option (List String)
  | [] => some names
  | .opens name :: rest => openAfter? (name :: names) rest
  | .stands _ :: rest => openAfter? names rest
  | .closes name :: rest =>
    match names with
    | [] => none
    | innermost :: outer => if innermost = name then openAfter? outer rest else none

theorem openAfter?_contents {content : List Mark} (contents : Contents content)
    (names : List String) (rest : List Mark) :
    openAfter? names (content ++ rest) = openAfter? names rest := by
  induction contents generalizing names rest with
  | nil => rfl
  | stands name _ inductionHypothesis => exact inductionHypothesis names rest
  | pair name _ _ withinHypothesis inductionHypothesis =>
    rw [List.cons_append, List.append_assoc, openAfter?, withinHypothesis, List.cons_append,
      openAfter?, if_pos rfl, inductionHypothesis]

theorem openAfter?_oneElement {element : List Mark} (one : OneElement element) :
    openAfter? [] element = some [] := by
  have closed := openAfter?_contents one.contents [] []
  rwa [List.append_nil] at closed

/-- Behind a complete element nothing can stand. -/
theorem OneElement.eq_nil_of_append {element rest : List Mark} (one : OneElement element)
    (longer : OneElement (element ++ rest)) : rest = [] := by
  cases one with
  | stands name =>
    rw [List.singleton_append] at longer
    cases longer
    rfl
  | @pair name inside within =>
    rw [List.cons_append, List.append_assoc, List.singleton_append] at longer
    generalize whole : inside ++ .closes name :: rest = others at longer
    cases longer with
    | @pair _ inside' within' =>
      rcases List.eq_nil_or_concat rest with rfl | ⟨more, last, rfl⟩
      · rfl
      · -- The first closing tag would stand inside, where nothing is open for it.
        rw [List.concat_eq_append, ← List.cons_append, ← List.append_assoc] at whole
        obtain ⟨rfl, -⟩ := List.append_inj' whole rfl
        have closed := openAfter?_contents within' [] []
        rw [List.append_nil, openAfter?_contents within] at closed
        cases closed

theorem not_viable_of_oneElement {read : List Mark} (one : OneElement read) (mark : Mark) :
    ¬ Viable (read ++ [mark]) := by
  rintro ⟨rest, longer⟩
  rw [List.append_assoc] at longer
  cases one.eq_nil_of_append longer

/-! ### How far an element has come -/

/-- An open element: its name, and the marks of the complete elements inside it. -/
structure Level where
  name : String
  content : List Mark

/-- The marks of open elements, the innermost first. -/
def marksTo : List Level → List Mark
  | [] => []
  | level :: outer => marksTo outer ++ .opens level.name :: level.content

theorem openAfter?_marksTo {levels : List Level}
    (contents : ∀ level ∈ levels, Contents level.content) (rest : List Mark) :
    openAfter? [] (marksTo levels ++ rest) = openAfter? (levels.map Level.name) rest := by
  induction levels generalizing rest with
  | nil => rfl
  | cons level outer inductionHypothesis =>
    obtain ⟨content, others⟩ := List.forall_mem_cons.mp contents
    rw [marksTo, List.append_assoc, inductionHypothesis others, List.cons_append, openAfter?,
      openAfter?_contents content]
    rfl

/-- Open elements can be closed one after the other, the innermost first. -/
theorem oneElement_closed {levels : List Level} (some : levels ≠ [])
    (contents : ∀ level ∈ levels, Contents level.content) {more : List Mark}
    (further : Contents more) :
    OneElement (marksTo levels ++ more ++ levels.map fun level => .closes level.name) := by
  induction levels generalizing more with
  | nil => exact absurd rfl some
  | cons level outer inductionHypothesis =>
    obtain ⟨content, others⟩ := List.forall_mem_cons.mp contents
    have element := OneElement.pair level.name (content.append further)
    cases outer with
    | nil => simpa [marksTo] using element
    | cons next outer =>
      have closed := inductionHypothesis (List.cons_ne_nil _ _) others element.contents
      simpa [marksTo] using closed

/-- The marks read so far are the beginning of an element; the names are those of its open
elements, the innermost first, and the element may be complete. -/
inductive Progress (read : List Mark) : List String → Bool → Prop
  | nothing (same : read = []) : Progress read [] false
  | inside {names : List String} (levels : List Level) (some : levels ≠ [])
      (same : read = marksTo levels) (named : names = levels.map Level.name)
      (contents : ∀ level ∈ levels, Contents level.content) : Progress read names false
  | whole (one : OneElement read) : Progress read [] true

namespace Progress

variable {read : List Mark} {name : String} {names : List String} {complete : Bool}

theorem viable (progress : Progress read names complete) : Viable read := by
  cases progress with
  | nothing same => exact ⟨[.stands ""], by rw [same]; exact .stands ""⟩
  | inside levels some same named contents =>
    have closed := oneElement_closed some contents .nil
    rw [List.append_nil] at closed
    exact ⟨_, by rw [same]; exact closed⟩
  | whole one => exact ⟨[], by rwa [List.append_nil]⟩

theorem innermost (progress : Progress read (name :: names) complete) : Innermost read name := by
  cases progress with
  | inside levels some same named contents =>
    cases levels with
    | nil => exact absurd rfl some
    | cons level outer =>
      obtain ⟨rfl, -⟩ := List.cons.inj named
      exact ⟨marksTo outer, level.content, same, contents level List.mem_cons_self⟩

/-- No element goes on with a closing tag for another than the innermost open one. -/
theorem not_viable_closes (progress : Progress read (name :: names) complete) {other : String}
    (differs : other ≠ name) : ¬ Viable (read ++ [.closes other]) := by
  rintro ⟨rest, one⟩
  cases progress with
  | inside levels some same named contents =>
    have closed := openAfter?_oneElement one
    rw [same, List.append_assoc, openAfter?_marksTo contents, ← named, List.singleton_append,
      openAfter?, if_neg differs.symm] at closed
    cases closed

/-- Where nothing is open all elements are complete. -/
theorem contents (progress : Progress read [] complete) : Contents read := by
  cases progress with
  | nothing same =>
    rw [same]
    exact .nil
  | inside levels some same named contents =>
    exact absurd (List.map_eq_nil_iff.mp named.symm) some
  | whole one => exact one.contents

/-- Complete elements may stand inside an open one. -/
theorem extend (progress : Progress read (name :: names) complete) {more : List Mark}
    (further : Contents more) : Progress (read ++ more) (name :: names) false := by
  cases progress with
  | inside levels some same named contents =>
    cases levels with
    | nil => exact absurd rfl some
    | cons level outer =>
      obtain ⟨content, others⟩ := List.forall_mem_cons.mp contents
      refine .inside (⟨level.name, level.content ++ more⟩ :: outer) (List.cons_ne_nil _ _) ?_
        named (List.forall_mem_cons.mpr ⟨content.append further, others⟩)
      simp [same, marksTo]

/-- An element that is still open is not complete. -/
theorem incomplete (progress : Progress read (name :: names) complete) : complete = false := by
  cases progress with
  | inside => rfl

theorem eq_nil (progress : Progress read [] false) : read = [] := by
  cases progress with
  | nothing same => exact same
  | inside levels some same named contents =>
    exact absurd (List.map_eq_nil_iff.mp named.symm) some

theorem oneElement (progress : Progress read [] true) : OneElement read := by
  cases progress with
  | whole one => exact one

theorem opens (progress : Progress read names complete)
    (mayStart : names = [] → complete = false) (name : String) :
    Progress (read ++ [.opens name]) (name :: names) false := by
  cases progress with
  | nothing same =>
    exact .inside [⟨name, []⟩] (List.cons_ne_nil _ _) (by simp [same, marksTo]) rfl
      (by simpa using Contents.nil)
  | inside levels some same named contents =>
    exact .inside (⟨name, []⟩ :: levels) (List.cons_ne_nil _ _) (by simp [same, marksTo])
      (by simp [named]) (List.forall_mem_cons.mpr ⟨.nil, contents⟩)
  | whole one => cases mayStart rfl

theorem stands (progress : Progress read names complete)
    (mayStart : names = [] → complete = false) (name : String) :
    Progress (read ++ [.stands name]) names names.isEmpty := by
  cases names with
  | cons first outer => exact progress.extend (.stands name .nil)
  | nil =>
    obtain rfl := mayStart rfl
    rw [progress.eq_nil]
    exact .whole (.stands name)

theorem closes (progress : Progress read (name :: names) complete) :
    Progress (read ++ [.closes name]) names names.isEmpty := by
  cases progress with
  | inside levels some same named contents =>
    cases levels with
    | nil => exact absurd rfl some
    | cons level outer =>
      obtain ⟨rfl, rfl⟩ := List.cons.inj named
      obtain ⟨content, others⟩ := List.forall_mem_cons.mp contents
      have element := OneElement.pair level.name content
      have split : read ++ [.closes level.name] =
          marksTo outer ++ .opens level.name :: (level.content ++ [.closes level.name]) := by
        simp [same, marksTo]
      rw [split]
      cases outer with
      | nil => exact .whole element
      | cons next outer =>
        exact Progress.extend (.inside (next :: outer) (List.cons_ne_nil _ _) rfl rfl others)
          element.contents

end Progress

/-! ### The account of the builder -/

/-- What an open element was opened with: its name and where it starts. -/
def OpenElement.heading (level : OpenElement) : String × Nat :=
  (level.name, level.start)

/-- The first tag among some tokens is an opening one. It starts at an offset and has a name. -/
def BeginsWith (read : List Token) (heading : String × Nat) : Prop :=
  ∃ before body after, read = before ++ .opening body :: after ∧ marks before = [] ∧
    heading = (tagName body, Text.size (writtenOf before))

theorem BeginsWith.later {read : List Token} {heading : String × Nat}
    (begins : BeginsWith read heading) (token : Token) : BeginsWith (read ++ [token]) heading := by
  obtain ⟨before, body, after, rfl, unmarked, same⟩ := begins
  exact ⟨before, body, after ++ [token], by simp, unmarked, same⟩

/-- What the builder has read. -/
structure Stage (read : List Token) (builder : Builder) : Prop where
  position : builder.position = Text.size (writtenOf read)
  progress : Progress (marks read) (builder.opened.map OpenElement.name) builder.root.isSome
  outermost : ∀ first, builder.opened.getLast? = some first → BeginsWith read first.heading

/-- Why a token is not taken behind others. -/
inductive Refused (read : List Token) : Token → MarkupError → Prop
  | mismatched {body : List Char} {expected : String} {outer : List String} {complete : Bool}
      (progress : Progress (marks read) (expected :: outer) complete)
      (differs : closingName body ≠ expected) :
      Refused read (.closing body)
        (.mismatchedEnd (Text.size (writtenOf read)) expected (closingName body))
  | secondRoot {token : Token} {mark : Mark} {name : String} (one : OneElement (marks read))
      (marked : token.mark? = some mark) (starts : mark = .opens name ∨ mark = .stands name) :
      Refused read token (.multipleRoots (Text.size (writtenOf read)) name)
  | stray {body : List Char} {error : MarkupError} (contents : Contents (marks read)) :
      Refused read (.closing body) error

theorem stage_start : Stage [] Builder.start :=
  ⟨rfl, .nothing rfl, fun first none => by cases none⟩

/-- A token that is no tag leaves the open elements and the root as they are. -/
theorem step_unmarked (source : List Char) (builder : Builder) {token : Token}
    (unmarked : token.mark? = none) :
    ∃ next, Builder.step source builder token = .ok next ∧
      next.position = builder.position + Text.size token.written ∧
      next.root = builder.root ∧
      next.opened.map OpenElement.heading = builder.opened.map OpenElement.heading := by
  obtain ⟨position, opened, root⟩ := builder
  cases token with
  | text run => cases opened <;> exact ⟨_, rfl, rfl, rfl, rfl⟩
  | literal content => cases opened <;> exact ⟨_, rfl, rfl, rfl, rfl⟩
  | aside written => exact ⟨_, rfl, rfl, rfl, rfl⟩
  | _ => cases unmarked

/-- A finished node leaves the headings of the open elements, and a root stands after it where
nothing is open. -/
theorem add_opened (builder : Builder) (node : Node) :
    (builder.add node).opened.map OpenElement.heading = builder.opened.map OpenElement.heading ∧
      (builder.add node).root.isSome = (builder.opened.isEmpty || builder.root.isSome) := by
  obtain ⟨position, opened, root⟩ := builder
  cases opened <;> exact ⟨rfl, rfl⟩

theorem names_of_headings {first second : List OpenElement}
    (same : first.map OpenElement.heading = second.map OpenElement.heading) :
    first.map OpenElement.name = second.map OpenElement.name := by
  have names := congrArg (List.map Prod.fst) same
  rwa [List.map_map, List.map_map] at names

namespace Stage

variable {source : List Char} {read : List Token} {builder : Builder}

/-- The outermost element keeps its heading while it is open. -/
theorem outermost_later (stage : Stage read builder) (token : Token)
    {kept opened : List OpenElement} (outer : kept <:+ builder.opened)
    (same : opened.map OpenElement.heading = kept.map OpenElement.heading) {first : OpenElement}
    (isFirst : opened.getLast? = some first) : BeginsWith (read ++ [token]) first.heading := by
  have sameLast := congrArg List.getLast? same
  rw [List.getLast?_map, List.getLast?_map, isFirst, Option.map_some] at sameLast
  obtain ⟨old, isOld, heading⟩ := Option.map_eq_some_iff.mp sameLast.symm
  obtain ⟨inner, whole⟩ := outer
  have isLast : builder.opened.getLast? = some old := by
    rw [← whole, List.getLast?_append, isOld, Option.some_or]
  rw [← heading]
  exact (stage.outermost old isLast).later token

theorem step_none (stage : Stage read builder) {token : Token} (unmarked : token.mark? = none) :
    ∃ next, Builder.step source builder token = .ok next ∧ Stage (read ++ [token]) next := by
  obtain ⟨next, placed, position, root, opened⟩ := step_unmarked source builder unmarked
  refine ⟨next, placed,
    ⟨?_, ?_, fun first => stage.outermost_later token (List.suffix_refl _) opened⟩⟩
  · simp [position, stage.position]
  · rw [marks_append, marks_cons_of_none unmarked, marks_nil, List.append_nil, root,
      names_of_headings opened]
    exact stage.progress

/-- An element may start unless a complete one stands before it. -/
theorem mayStart_or (stage : Stage read builder) {token : Token} {mark : Mark} {name : String}
    (marked : token.mark? = some mark) (starts : mark = .opens name ∨ mark = .stands name) :
    (builder.mayStart name = .ok () ∧
        (builder.opened.map OpenElement.name = [] → builder.root.isSome = false)) ∨
      ∃ error, builder.mayStart name = .error error ∧ Refused read token error := by
  by_cases second : (builder.opened.isEmpty && builder.root.isSome) = true
  · refine Or.inr ⟨.multipleRoots builder.position name, ?_, ?_⟩
    · rw [Builder.mayStart, if_pos second]
      rfl
    · obtain ⟨noneOpen, root⟩ := Bool.and_eq_true_iff.mp second
      have progress := stage.progress
      rw [List.isEmpty_iff.mp noneOpen, root] at progress
      rw [stage.position]
      exact .secondRoot progress.oneElement marked starts
  · refine Or.inl ⟨?_, fun noneOpen => ?_⟩
    · rw [Builder.mayStart, if_neg second]
      rfl
    · rw [List.map_eq_nil_iff] at noneOpen
      simpa [noneOpen] using second

/-- No root stands while an element may start. -/
theorem noRoot (stage : Stage read builder)
    (mayStart : builder.opened.map OpenElement.name = [] → builder.root.isSome = false) :
    builder.root.isSome = false := by
  have progress := stage.progress
  cases names : builder.opened.map OpenElement.name with
  | nil => exact mayStart names
  | cons innermost outer =>
    rw [names] at progress
    exact progress.incomplete

theorem step_opening (stage : Stage read builder) (body : List Char) :
    (∃ next, Builder.step source builder (.opening body) = .ok next ∧
        Stage (read ++ [.opening body]) next) ∨
      ∃ error, Builder.step source builder (.opening body) = .error error ∧
        Refused read (.opening body) error := by
  have marked : (Token.opening body).mark? = some (.opens (tagName body)) := rfl
  rcases stage.mayStart_or marked (Or.inl rfl) with ⟨starts, mayStart⟩ | ⟨error, refuses, refused⟩
  · refine Or.inl ⟨_, by rw [Builder.step, starts]; rfl, ⟨?_, ?_, ?_⟩⟩
    · simp [stage.position]
    · rw [marks_append, marks_cons_of_some marked, List.map_cons, stage.noRoot mayStart]
      exact stage.progress.opens mayStart (tagName body)
    · intro first isFirst
      cases outer : builder.opened with
      | nil =>
        rw [outer, List.getLast?_singleton, Option.some.injEq] at isFirst
        have progress := stage.progress
        rw [outer, mayStart (by rw [outer]; rfl)] at progress
        refine ⟨read, body, [], rfl, progress.eq_nil, ?_⟩
        rw [← isFirst, ← stage.position]
        rfl
      | cons level others =>
        rw [outer, List.getLast?_cons_cons, ← outer] at isFirst
        exact stage.outermost_later _ (List.suffix_refl _) rfl isFirst
  · exact Or.inr ⟨error, by rw [Builder.step, refuses]; rfl, refused⟩

theorem step_selfClosing (stage : Stage read builder) (body : List Char) :
    (∃ next, Builder.step source builder (.selfClosing body) = .ok next ∧
        Stage (read ++ [.selfClosing body]) next) ∨
      ∃ error, Builder.step source builder (.selfClosing body) = .error error ∧
        Refused read (.selfClosing body) error := by
  have marked : (Token.selfClosing body).mark? = some (.stands (tagName body)) := rfl
  rcases stage.mayStart_or marked (Or.inr rfl) with ⟨starts, mayStart⟩ | ⟨error, refuses, refused⟩
  · refine Or.inl ⟨_, by rw [Builder.step, starts]; rfl, ⟨?_, ?_, ?_⟩⟩
    · simp [stage.position]
    · obtain ⟨opened, root⟩ := add_opened builder (.element ⟨tagName body, true,
        .between builder.position (builder.position + Text.size (Token.selfClosing body).written),
        .point (builder.position + Text.size (Token.selfClosing body).written - 2)⟩ [])
      have complete : (builder.opened.map OpenElement.name).isEmpty =
          (builder.opened.isEmpty || builder.root.isSome) := by
        rw [stage.noRoot mayStart, Bool.or_false, List.isEmpty_map]
      rw [marks_append, marks_cons_of_some marked, names_of_headings opened, root, ← complete]
      exact stage.progress.stands mayStart (tagName body)
    · intro first isFirst
      exact stage.outermost_later _ (List.suffix_refl _) (add_opened builder _).1 isFirst
  · exact Or.inr ⟨error, by rw [Builder.step, refuses]; rfl, refused⟩

theorem step_closing (stage : Stage read builder) (body : List Char) :
    (∃ next, Builder.step source builder (.closing body) = .ok next ∧
        Stage (read ++ [.closing body]) next) ∨
      ∃ error, Builder.step source builder (.closing body) = .error error ∧
        Refused read (.closing body) error := by
  have marked : (Token.closing body).mark? = some (.closes (closingName body)) := rfl
  have progress := stage.progress
  cases opened : builder.opened with
  | nil =>
    rw [opened] at progress
    refine Or.inr ⟨.malformed (builder.position + Text.size (Token.closing body).written)
      (.closesNothing (closingName body)), ?_, .stray progress.contents⟩
    simp only [Builder.step, Builder.close, opened]
    rfl
  | cons inside outer =>
    rw [opened, List.map_cons] at progress
    by_cases sameName : inside.name = closingName body
    · let stop := builder.position + Text.size (Token.closing body).written
      let node := Node.element ⟨closingName body, false, .between inside.start stop,
        .between inside.inner builder.position⟩ inside.children.reverse
      let closed := Builder.add { builder with opened := outer } node
      obtain ⟨headings, root⟩ := add_opened { builder with opened := outer } node
      refine Or.inl ⟨{ closed with position := stop }, ?_, ⟨?_, ?_, ?_⟩⟩
      · simp only [Builder.step, Builder.close, opened, sameName, ne_eq, not_true_eq_false,
          ↓reduceIte]
        rfl
      · simp [stop, stage.position]
      · have complete : (outer.map OpenElement.name).isEmpty =
            (outer.isEmpty || builder.root.isSome) := by
          rw [progress.incomplete, Bool.or_false, List.isEmpty_map]
        rw [marks_append, marks_cons_of_some marked, names_of_headings headings, root, ← complete,
          ← sameName]
        exact progress.closes
      · intro first isFirst
        exact stage.outermost_later _ (opened ▸ List.suffix_cons inside outer) headings isFirst
    · refine Or.inr ⟨.mismatchedEnd builder.position inside.name (closingName body), ?_, ?_⟩
      · simp only [Builder.step, Builder.close, opened, sameName, ne_eq, not_false_eq_true,
          ↓reduceIte]
        rfl
      · rw [stage.position]
        exact .mismatched progress (Ne.symm sameName)

/-- A token is taken and adds to the account, or it is refused. -/
theorem step (source : List Char) (stage : Stage read builder) (token : Token) :
    (∃ next, Builder.step source builder token = .ok next ∧ Stage (read ++ [token]) next) ∨
      ∃ error, Builder.step source builder token = .error error ∧ Refused read token error := by
  cases token with
  | opening body => exact stage.step_opening body
  | selfClosing body => exact stage.step_selfClosing body
  | closing body => exact stage.step_closing body
  | _ => exact Or.inl (stage.step_none rfl)

/-- The builder takes all tokens, or it stops at the first that is refused. -/
theorem run (source : List Char) (stage : Stage read builder) (tokens : List Token) :
    (∃ last, tokens.foldlM (Builder.step source) builder = .ok last ∧
        Stage (read ++ tokens) last) ∨
      ∃ before token after error, tokens = before ++ token :: after ∧
        tokens.foldlM (Builder.step source) builder = .error error ∧
        Refused (read ++ before) token error := by
  induction tokens generalizing read builder with
  | nil => exact Or.inl ⟨builder, rfl, by rwa [List.append_nil]⟩
  | cons token rest inductionHypothesis =>
    rw [List.foldlM_cons]
    rcases stage.step source token with
      ⟨next, placed, later⟩ | ⟨error, failed, refused⟩
    · rw [placed]
      rcases inductionHypothesis later with
        ⟨last, built, stage⟩ | ⟨before, other, after, error, rfl, failed, refused⟩
      · exact Or.inl ⟨last, built, by rwa [List.append_cons]⟩
      · exact Or.inr ⟨token :: before, other, after, error, rfl, failed,
          by rwa [List.append_cons]⟩
    · rw [failed]
      exact Or.inr ⟨[], token, rest, error, rfl, rfl, by rwa [List.append_nil]⟩

end Stage

/-! ### The verdict -/

/-- The tokens of a text, as far as they can be read. -/
def tokensOf (text : String) : List Token :=
  (scan (withoutMark text.toList)).1

/-- As many elements are open as closing tags need, whatever their names. -/
def keepsCount : Nat → List Mark → Bool
  | _, [] => true
  | depth, .opens _ :: rest => keepsCount (depth + 1) rest
  | depth, .stands _ :: rest => keepsCount depth rest
  | 0, .closes _ :: _ => false
  | depth + 1, .closes _ :: rest => keepsCount depth rest

theorem keepsCount_contents {content : List Mark} (contents : Contents content) (depth : Nat)
    (rest : List Mark) : keepsCount depth (content ++ rest) = keepsCount depth rest := by
  induction contents generalizing depth rest with
  | nil => rfl
  | stands name _ inductionHypothesis => exact inductionHypothesis depth rest
  | pair name _ _ withinHypothesis inductionHypothesis =>
    rw [List.cons_append, List.append_assoc, keepsCount, withinHypothesis, List.cons_append,
      keepsCount, inductionHypothesis]

/-- The text can be read to its end token by token. Beside the end of each token it is checked
that every closing tag comes while an element is open. -/
structure Readable (text : String) : Prop where
  complete : (scan (withoutMark text.toList)).2 = none
  counted : keepsCount 0 (marks (tokensOf text)) = true

/-- With this token, and not before, it is settled that no element comes of it. -/
structure Offends (read : List Token) (token : Token) : Prop where
  before : Viable (marks read)
  after : ¬ Viable (marks (read ++ [token]))

/-- What is wrong with the tags among some tokens, by the first that offends if there is one. -/
inductive FirstFault (tokens : List Token) : MarkupError → Prop
  | mismatched {before after : List Token} {body : List Char} {expected : String}
      (whole : tokens = before ++ .closing body :: after) (offends : Offends before (.closing body))
      (innermost : Innermost (marks before) expected) :
      FirstFault tokens
        (.mismatchedEnd (Text.size (writtenOf before)) expected (closingName body))
  | secondRoot {before after : List Token} {token : Token} {mark : Mark} {name : String}
      (whole : tokens = before ++ token :: after) (offends : Offends before token)
      (marked : token.mark? = some mark) (starts : mark = .opens name ∨ mark = .stands name) :
      FirstFault tokens (.multipleRoots (Text.size (writtenOf before)) name)
  | unclosed {before after : List Token} {body : List Char}
      (whole : tokens = before ++ .opening body :: after) (outermost : marks before = [])
      (viable : Viable (marks tokens)) (incomplete : ¬ OneElement (marks tokens)) :
      FirstFault tokens (.unclosed (Text.size (writtenOf before)) (tagName body))
  | empty (unmarked : marks tokens = []) : FirstFault tokens .empty

/-- The token that is refused is the first that offends. -/
theorem Refused.firstFault {before after : List Token} {token : Token} {error : MarkupError}
    (refused : Refused before token error)
    (counted : keepsCount 0 (marks (before ++ token :: after)) = true) :
    FirstFault (before ++ token :: after) error := by
  cases refused with
  | mismatched progress differs =>
    refine .mismatched rfl ⟨progress.viable, ?_⟩ progress.innermost
    rw [marks_append, marks_closing]
    exact progress.not_viable_closes differs
  | @secondRoot _ mark name one marked starts =>
    refine .secondRoot rfl ⟨⟨[], by rwa [List.append_nil]⟩, ?_⟩ marked starts
    rw [marks_append, marks_cons_of_some marked]
    exact not_viable_of_oneElement one mark
  | stray contents =>
    rw [marks_append, marks_closing, keepsCount_contents contents] at counted
    cases counted

/-- A text whose tokens are derived is parsed into the tree of the derivation. -/
theorem parse_of_derived {text : String} (complete : (scan (withoutMark text.toList)).2 = none)
    {tree : Tree} (derived : Derived text.toList (tokensOf text) tree) :
    Tree.parse text = .ok tree := by
  obtain ⟨before, element, after, whole, unmarkedBefore, unmarkedAfter, derives⟩ := derived
  have folded : (tokensOf text).foldlM (Builder.step text.toList) Builder.start =
      pure ⟨Text.size (writtenOf before) + Text.size (writtenOf element) +
        Text.size (writtenOf after), [], some tree.root⟩ := by
    rw [whole, List.foldlM_append, List.foldlM_append, Builder.start,
      foldlM_outside _ unmarkedBefore, pure_bind, Nat.zero_add, foldlM_of_derivesElement derives,
      pure_bind, foldlM_outside _ unmarkedAfter]
  simp only [Tree.parse_eq, Builder.parse, complete]
  rw [← tokensOf, folded, pure_bind]
  rfl

/-- What the builder answers behind the last token. -/
theorem Stage.finish {tokens : List Token} {builder : Builder} (stage : Stage tokens builder) :
    OneElement (marks tokens) ∨
      ∃ error, builder.finish = .error error ∧ FirstFault tokens error := by
  have progress := stage.progress
  unfold Builder.finish
  cases outermost : builder.opened.getLast? with
  | none =>
    rw [List.getLast?_eq_none_iff.mp outermost] at progress
    cases root : builder.root with
    | none =>
      rw [root] at progress
      refine Or.inr ⟨.empty, rfl, .empty progress.eq_nil⟩
    | some node =>
      rw [root] at progress
      exact Or.inl progress.oneElement
  | some first =>
    obtain ⟨before, body, after, whole, unmarked, heading⟩ := stage.outermost first outermost
    obtain ⟨named, start⟩ := Prod.mk.inj heading
    refine Or.inr ⟨.unclosed first.start first.name, rfl, ?_⟩
    rw [named, start]
    -- A complete element could not go on with the closing tag of the innermost one.
    refine .unclosed whole unmarked progress.viable fun one => ?_
    cases opened : builder.opened with
    | nil => simp [opened] at outermost
    | cons innermost outer =>
      rw [opened] at progress
      exact not_viable_of_oneElement one _ progress.closes.viable

/-- A text is parsed, or the builder refuses a token or does not finish. -/
theorem parse_cases {text : String} (readable : Readable text) :
    OneElement (marks (tokensOf text)) ∨
      ∃ error, Tree.parse text = .error error ∧ FirstFault (tokensOf text) error := by
  simp only [Tree.parse_eq, Builder.parse, readable.complete]
  rw [← tokensOf]
  rcases stage_start.run text.toList (tokensOf text) with
    ⟨last, built, stage⟩ | ⟨before, token, after, error, whole, failed, refused⟩
  · rw [built]
    exact stage.finish
  · rw [failed]
    refine Or.inr ⟨error, rfl, ?_⟩
    have counted := readable.counted
    rw [whole] at counted ⊢
    exact refused.firstFault counted

/-- What is read off the tree of a text is read off a tree. -/
theorem Tree.exists_of_map_parse {Shown : Type} {text : String} {read : Tree → Shown}
    {shown : Shown} (answer : (Tree.parse text).map read = .ok shown) :
    ∃ tree, Tree.parse text = .ok tree ∧ read tree = shown := by
  cases parsed : Tree.parse text with
  | error error =>
    rw [parsed] at answer
    cases answer
  | ok tree =>
    rw [parsed] at answer
    exact ⟨tree, rfl, Except.ok.inj answer⟩

/-- The tree of a text is that of the derivation of its tokens. -/
theorem derived_of_parse {text : String} {tree : Tree} (parsed : Tree.parse text = .ok tree) :
    Derived text.toList (tokensOf text) tree := by
  obtain ⟨builder, built, complete, finished⟩ := parse_inversion parsed
  have one : OneElement (marks (tokensOf text)) := by
    rcases stage_start.run text.toList (tokensOf text) with
      ⟨last, same, stage⟩ | ⟨before, token, after, error, whole, failed, -⟩
    · obtain rfl : builder = last := Except.ok.inj (built.symm.trans same)
      rcases stage.finish with one | ⟨error, failed, -⟩
      · exact one
      · cases finished.symm.trans failed
    · cases built.symm.trans failed
  obtain ⟨other, derived⟩ := exists_derived text.toList one
  obtain rfl : tree = other :=
    Except.ok.inj (parsed.symm.trans (parse_of_derived complete derived))
  exact derived

/-- A text that can be read to its end is parsed exactly if its tags are one element, and then the
tree is that of their derivation, with the data inside the root in the innermost element that was
open. If it is not parsed, the error says what is wrong with the first tag that offends, or what
is missing at the end. -/
theorem Tree.parse_verdict {text : String} (readable : Readable text) :
    ((∃ tree, Tree.parse text = .ok tree) ↔ OneElement (marks (tokensOf text))) ∧
      (∀ tree, Tree.parse text = .ok tree → Derived text.toList (tokensOf text) tree) ∧
      ∀ error, Tree.parse text = .error error → FirstFault (tokensOf text) error := by
  refine ⟨⟨?_, fun one => ?_⟩, fun tree => derived_of_parse, fun error failed => ?_⟩
  · rintro ⟨tree, parsed⟩
    exact (derived_of_parse parsed).oneElement
  · obtain ⟨tree, derived⟩ := exists_derived text.toList one
    exact ⟨tree, parse_of_derived readable.complete derived⟩
  · rcases parse_cases readable with one | ⟨other, same, fault⟩
    · obtain ⟨tree, derived⟩ := exists_derived text.toList one
      cases failed.symm.trans (parse_of_derived readable.complete derived)
    · obtain rfl : error = other := Except.error.inj (failed.symm.trans same)
      exact fault

/-- Two elements that cross. The inner one is to be closed first, so the tag that closes the outer
one offends. -/
theorem Tree.parse_verdict_crossed :
    Readable "<a><b></a></b>" ∧
      FirstFault (tokensOf "<a><b></a></b>") (.mismatchedEnd 6 "b" "a") := by
  have readable : Readable "<a><b></a></b>" := ⟨by decide +kernel, by decide +kernel⟩
  have answer : (Tree.parse "<a><b></a></b>").map (fun _ => ()) =
      .error (.mismatchedEnd 6 "b" "a") := by decide +kernel
  match parsed : Tree.parse "<a><b></a></b>" with
  | .ok tree =>
    rw [parsed] at answer
    cases answer
  | .error error =>
    rw [parsed] at answer
    obtain rfl : error = .mismatchedEnd 6 "b" "a" := Except.error.inj answer
    exact ⟨readable, (Tree.parse_verdict readable).2.2 _ parsed⟩

end PomLens.Markup
