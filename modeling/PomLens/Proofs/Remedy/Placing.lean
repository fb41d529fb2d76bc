/-
This file says where the edits of a remedy stand.

Whatever is written, each edit begins and ends where no ending of a line is divided, and stays
inside the element that it is about (`Edit.Stays`): blanks that are removed with an element or give
way to another one never reach past a bracket. The edits of a remedy are about different elements,
so they do not meet, and made by their positions they give what they give by their offsets
(`edited_of_apart`).
-/

import PomLens.Proofs.Edit.Positions
import PomLens.Proofs.Markup.Seams
import PomLens.Proofs.Outcome
import PomLens.Proofs.Remedy.Pinning

namespace PomLens

open Text (StandsAt BeforeBracket BehindBracket Rests size blank)

variable {document : Document}

namespace Remedy

open Markup

/-! ### Inside an element -/

section

variable {node : Node} (fits : node.Fits)

include fits

theorem le_of_fits :
    node.range.start ≤ node.inner.start ∧ node.inner.stop ≤ node.range.stop := by
  simpa [Span.encloses] using fits.inner

theorem stays_of_inner {text : List Char} {edit : Edit} (stays : edit.Stays text node.inner) :
    edit.Stays text node.range :=
  stays.weaken (le_of_fits fits).1 (le_of_fits fits).2

/-- What stays in a child stays in the element. -/
theorem stays_of_child {text : List Char} {edit : Edit} {child : Node}
    (member : child ∈ node.children) (stays : edit.Stays text child.range) :
    edit.Stays text node.range :=
  have bounds := fits.children.bounds child member
  stays_of_inner fits (stays.weaken bounds.1 bounds.2)

end

/-! ### Removing an element -/

theorem splitLine?_getLast? {text line rest : List Char}
    (split : splitLine? text = some (line, rest)) : line.getLast? = some '\n' := by
  induction text generalizing line with
  | nil => simp [splitLine?] at split
  | cons char more inductionHypothesis =>
    rw [splitLine?] at split
    split at split
    · next isFeed =>
      cases split
      rw [isFeed]
      rfl
    · obtain ⟨⟨first, others⟩, inner, same⟩ := Option.map_eq_some_iff.mp split
      cases same
      have ends := inductionHypothesis inner
      rw [List.getLast?_cons, ends]
      rfl

/-- What is removed with an element: nothing else, or the blanks that the rest of its line is. -/
structure Removes (text : List Char) (range : Span) (edit : Edit)
    (front lead covered tail back : List Char) : Prop where
  whole : text = front ++ (lead ++ (covered ++ (tail ++ back)))
  start : size (front ++ lead) = range.start
  stop : size (front ++ lead) + size covered = range.stop
  blankLead : blank lead = true
  blankTail : blank tail = true
  edit : edit = .delete (.between (size front) (size front + size (lead ++ (covered ++ tail))))
  line : lead = [] ∧ tail = [] ∨ front.getLast? ≠ some '\r' ∧ tail.getLast? = some '\n'

theorem exists_removes {element : Node} {edit : Edit}
    (deleted : delete? document element = some edit) :
    ∃ front lead covered tail back,
      Removes document.chars element.range edit front lead covered tail back := by
  rw [delete?] at deleted
  simp only [Option.bind_eq_bind] at deleted
  obtain ⟨⟨front, rest⟩, cutFront, deleted⟩ := Option.bind_eq_some_iff.mp deleted
  obtain ⟨⟨front', after⟩, cutBack, deleted⟩ := Option.bind_eq_some_iff.mp deleted
  obtain ⟨whole, start⟩ := Text.cut?_eq_some_iff.mp cutFront
  obtain ⟨whole', stop⟩ := Text.cut?_eq_some_iff.mp cutBack
  obtain ⟨covered, rfl, rfl⟩ := Text.exists_between (whole.symm.trans whole')
    (by rw [start, stop]; exact element.range.ordered)
  rw [Text.size_append] at stop
  have range : element.range = .between (size front) (size front + size covered) :=
    Span.ext start.symm (by rw [Span.stop_between_add, stop])
  have alone : Removes document.chars element.range (.delete element.range) front [] covered []
      after :=
    ⟨whole, by simpa using start, by simpa using stop, rfl, rfl,
      by rw [range, List.nil_append, List.append_nil], Or.inl ⟨rfl, rfl⟩⟩
  simp only at deleted
  split at deleted
  · next tail back line =>
    split at deleted
    · next blanks =>
      obtain rfl := Option.some.inj deleted
      obtain ⟨blankLead, blankTail⟩ := Bool.and_eq_true_iff.mp blanks
      obtain ⟨outer, split, notReturn⟩ := lastLine_eq front
      generalize Document.lastLine front = lead at *
      obtain rfl := splitLine?_eq line
      obtain rfl := split
      have begins : element.range.start - size lead = size outer := by
        rw [← start, Text.size_append, Nat.add_sub_cancel]
      have ends : element.range.stop + size tail =
          size outer + size (lead ++ (covered ++ tail)) := by
        rw [← stop]
        simp only [Text.size_append]
        omega
      exact ⟨outer, lead, covered, tail, back, by rw [whole, List.append_assoc], start, stop,
        blankLead, blankTail, by rw [begins, ends], Or.inr ⟨notReturn, splitLine?_getLast? line⟩⟩
    · obtain rfl := Option.some.inj deleted
      exact ⟨_, _, _, _, _, alone⟩
  · obtain rfl := Option.some.inj deleted
    exact ⟨_, _, _, _, _, alone⟩

/-- An element is removed inside any brackets that are around it. -/
theorem delete?_stays {element : Node} {edit : Edit}
    (deleted : delete? document element = some edit) (seated : element.Seated document.chars)
    {outer : Span} (behind : BehindBracket document.chars outer.start)
    (before : BeforeBracket document.chars outer.stop)
    (starts : outer.start ≤ element.range.start) (stops : element.range.stop ≤ outer.stop) :
    edit.Stays document.chars outer := by
  obtain ⟨front, lead, covered, tail, back, whole, start, stop, blankLead, blankTail, rfl,
    nothing | ⟨notReturn, isFeed⟩⟩ := exists_removes deleted
  · obtain ⟨rfl, rfl⟩ := nothing
    have range : Span.between (size front) (size front + size ([] ++ (covered ++ []))) =
        element.range :=
      Span.ext (by simpa using start) (by simpa using stop)
    rw [range]
    exact ⟨seated.range, starts, stops⟩
  · have standsLead : StandsAt document.chars (size front) lead := ⟨front, _, whole, rfl⟩
    have standsTail : StandsAt document.chars element.range.stop tail :=
      ⟨front ++ lead ++ covered, back, by simp [whole], by rw [Text.size_append, stop]⟩
    have inFront := standsLead.le_of_behindBracket blankLead behind (by
      rw [← Text.size_append, start]
      exact starts)
    have inBack := standsTail.le_of_beforeBracket blankTail before stops
    have place : size front + size (lead ++ (covered ++ tail)) = element.range.stop + size tail := by
      rw [← stop]
      simp only [Text.size_append]
      omega
    refine ⟨⟨?_, ?_⟩, inFront, ?_⟩
    · rw [Edit.delete, Span.start_between, whole]
      exact Text.rests_of_append fun isReturn => absurd isReturn notReturn
    · have regrouped : front ++ (lead ++ (covered ++ (tail ++ back))) =
          (front ++ (lead ++ (covered ++ tail))) ++ back := by simp
      rw [Edit.delete, Span.stop_between_add, whole, regrouped, ← Text.size_append]
      refine Text.rests_of_append fun isReturn => ?_
      rw [← List.append_assoc lead, ← List.append_assoc front, List.getLast?_append, isFeed]
        at isReturn
      cases isReturn
    · rwa [Edit.delete, Span.stop_between_add, place]

/-! ### Writing an element -/

theorem expand?_span {element : Node} {snippet : Snippet} {style : Style} {edit : Edit}
    (expanded : expand? document element snippet style = some edit) : edit.span = element.range := by
  rw [expand?] at expanded
  obtain ⟨base, -, expanded⟩ := Option.bind_eq_some_iff.mp expanded
  obtain rfl := Option.some.inj expanded
  rfl

/-- What is written first stands where the element begins, and is the whole element if that has no
inside. -/
theorem insertFirst?_span {container : Node} {snippet : Snippet} {style : Style} {edit : Edit}
    (inserted : insertFirst? document container snippet style = some edit) :
    edit.span = if container.isSelfClosing then container.range
      else .point container.inner.start := by
  rw [insertFirst?] at inserted
  split at inserted
  · next closed => rw [if_pos closed, expand?_span inserted]
  · next open_ =>
    obtain ⟨base, -, inserted⟩ := Option.bind_eq_some_iff.mp inserted
    obtain rfl := Option.some.inj inserted
    rw [if_neg open_]
    rfl

theorem insertFirst?_stays {container : Node} {snippet : Snippet} {style : Style} {edit : Edit}
    (inserted : insertFirst? document container snippet style = some edit)
    (seated : container.Seated document.chars) (fits : container.Fits) :
    edit.Stays document.chars container.range := by
  have := le_of_fits fits
  have := container.inner.ordered
  have span := insertFirst?_span inserted
  split at span
  · rw [← span]
    exact ⟨span ▸ seated.range, Nat.le_refl _, Nat.le_refl _⟩
  · refine ⟨span ▸ ⟨seated.inner.start, seated.inner.start⟩, ?_, ?_⟩ <;> rw [span] <;>
      simp only [Span.point] <;> omega

/-- What is written last takes the place of the blanks at the end of the inside. -/
theorem insertLast?_open {container : Node} {snippet : Snippet} {style : Style} {edit : Edit}
    (inserted : insertLast? document container snippet style = some edit)
    (seated : container.Seated document.chars) (open_ : container.isSelfClosing = false) :
    ∃ blanks, blank blanks = true ∧ StandsAt document.chars edit.span.start blanks ∧
      edit.span.stop = edit.span.start + size blanks ∧ edit.span.stop = container.inner.stop ∧
      container.inner.start ≤ edit.span.start ∧ Rests document.chars edit.span.start := by
  obtain ⟨before, content, after, whole, start, stop⟩ :=
    @Edit.fits_of_rests document.chars (.delete container.inner) seated.inner
  obtain ⟨blanks, split, dropped⟩ := Text.exists_eq_dropEndWhile_append Text.isBlank content
  have stands : StandsAt document.chars container.inner.start content :=
    ⟨before, after, whole, start⟩
  have inner : container.inner =
      .between container.inner.start (container.inner.start + size content) :=
    Span.ext rfl (by rw [Span.stop_between_add]; exact stop.symm.trans (by rw [start]; rfl))
  have sliced : container.inner.slice? document.chars = some content := by
    rw [inner]
    exact stands.slice?
  simp only [insertLast?, open_, Bool.false_eq_true, ↓reduceIte, sliced, Option.getD_some]
    at inserted
  obtain ⟨base, -, inserted⟩ := Option.bind_eq_some_iff.mp inserted
  obtain rfl := Option.some.inj inserted
  rw [split] at stands
  have sizes := congrArg size split
  rw [Text.size_append] at sizes
  have reaches : container.inner.start + size (Text.trimEnd content) + size blanks =
      container.inner.stop := by
    rw [inner, Span.stop_between_add, Span.start_between, sizes, Nat.add_assoc]
    rfl
  refine ⟨blanks, dropped, stands.right, ?_, ?_, Nat.le_add_right _ _, ?_⟩
  · exact (Nat.max_eq_right (by omega)).trans reaches.symm
  · exact Nat.max_eq_right (by omega)
  · by_cases nothing : Text.trimEnd content = []
    · simpa [nothing] using seated.inner.start
    · obtain ⟨last, isLast⟩ := Option.isSome_iff_exists.mp (List.getLast?_isSome.mpr nothing)
      exact stands.left.rests_behind isLast (Text.drop_getLast?_dropEndWhile isLast)

theorem insertLast?_stays {container : Node} {snippet : Snippet} {style : Style} {edit : Edit}
    (inserted : insertLast? document container snippet style = some edit)
    (seated : container.Seated document.chars) (fits : container.Fits) :
    edit.Stays document.chars container.range := by
  have inside := le_of_fits fits
  cases closed : container.isSelfClosing with
  | true =>
    rw [insertLast?, if_pos closed] at inserted
    have span := expand?_span inserted
    rw [← span]
    exact ⟨span ▸ seated.range, Nat.le_refl _, Nat.le_refl _⟩
  | false =>
    obtain ⟨blanks, -, -, -, stop, start, rests⟩ := insertLast?_open inserted seated closed
    exact ⟨⟨rests, stop ▸ seated.inner.stop⟩, inside.1.trans start, stop ▸ inside.2⟩

/-- What is written last stands behind all elements inside. -/
theorem insertLast?_behind {container child : Node} {snippet : Snippet} {style : Style}
    {edit : Edit} (inserted : insertLast? document container snippet style = some edit)
    (seated : container.Seated document.chars) (fits : container.Fits)
    (member : child ∈ container.children) (ends : BehindBracket document.chars child.range.stop) :
    child.range.stop ≤ edit.span.start := by
  have open_ : container.isSelfClosing = false := by
    by_contra closed
    rw [fits.alone (by simpa using closed)] at member
    cases member
  obtain ⟨blanks, areBlank, stands, reaches, stop, -, -⟩ :=
    insertLast?_open inserted seated open_
  refine stands.le_of_behindBracket areBlank ends ?_
  rw [← reaches, stop]
  exact (fits.children.bounds child member).2

/-! ### Elements inside one another -/

theorem isText_of_name? {node : Node} {name : String} (named : node.name? = some name) :
    node.isText = false := by
  cases node with
  | text run => cases named
  | element tag children => rfl

theorem child?_mem {node child : Node} {name : String} (found : node.child? name = some child) :
    child ∈ node.children ∧ child.name? = some name :=
  ⟨List.mem_of_find?_eq_some found, by simpa using List.find?_some found⟩

/-- Two children of different names do not overlap. -/
theorem apart_of_child? {node first second : Node} {name name' : String} (fits : node.Fits)
    (found : node.child? name = some first) (found' : node.child? name' = some second)
    (different : name ≠ name') :
    first.range.stop ≤ second.range.start ∨ second.range.stop ≤ first.range.start := by
  obtain ⟨member, named⟩ := child?_mem found
  obtain ⟨member', named'⟩ := child?_mem found'
  have inOrder := fits.children.pairwise
  have symmetric : node.children.Pairwise fun one other =>
      one.name? = some name → other.name? = some name' →
        one.range.stop ≤ other.range.start ∨ other.range.stop ≤ one.range.start :=
    inOrder.imp fun ends _ _ => Or.inl ends
  have flipped : node.children.Pairwise fun one other =>
      other.name? = some name → one.name? = some name' →
        other.range.stop ≤ one.range.start ∨ one.range.stop ≤ other.range.start :=
    inOrder.imp fun ends _ _ => Or.inr ends
  refine symmetric.forall_of_forall_of_flip (fun one _ isFirst isSecond => ?_) flipped
    member member' named named'
  exact absurd (Option.some.inj (isFirst.symm.trans isSecond)) different

/-- An edit in an element does not meet one in another element that does not overlap. -/
theorem apart_of_stays {text : List Char} {outer outer' : Span} {edit edit' : Edit}
    (stays : edit.Stays text outer) (stays' : edit'.Stays text outer')
    (apart : outer.stop ≤ outer'.start ∨ outer'.stop ≤ outer.start) : edit.Apart edit' := by
  have := stays.start
  have := stays.stop
  have := stays'.start
  have := stays'.stop
  rw [Edit.Apart]
  omega

/-! ### The edits of a remedy -/

theorem orCut_eq_ok_iff {α : Type} {value : Option α} {result : α} :
    orCut value = .ok result ↔ value = some result := by
  cases value with
  | none => simp [orCut, throw, throwThe, MonadExceptOf.throw]
  | some other => simp [orCut, pure, Except.pure]

/-- One edit, if it can be computed. -/
theorem edits_of_orCut {value : Option Edit} {edits : List Edit}
    (computed : (do return [← orCut value] : Except RemedyError (List Edit)) = .ok edits) :
    ∃ edit, value = some edit ∧ edits = [edit] := by
  obtain ⟨edit, found, same⟩ := exists_of_bind_eq_ok computed
  cases same
  exact ⟨edit, orCut_eq_ok_iff.mp found, rfl⟩

/-- What is dropped is the version of the project's own dependency. -/
theorem deletes_of_dropOwnVersion {project : Node} {key : ArtifactKey} {edits : List Edit}
    (computed : dropOwnVersion document project key = .ok edits) :
    Deletes document (directDependency? project key >>= Declaration.versionElement?) edits := by
  rw [dropOwnVersion] at computed
  split at computed
  · next nothing =>
    cases computed
    rw [nothing]
    rfl
  · next version found =>
    obtain ⟨edit, deleted, rfl⟩ := edits_of_orCut computed
    rw [found]
    exact ⟨edit, deleted, rfl⟩

/-- To manage a dependency, the whole management is written where there is none, and else what is
missing of it. -/
theorem writes_of_manage {project : Node} {key : ArtifactKey} {version : String} {style : Style}
    {edits : List Edit} (computed : manage document project key version style = .ok edits) :
    (project.child? "dependencyManagement" = none ∧ ∃ edit,
      insertLast? document project (wholeManagement key version) style = some edit ∧
      edits = [edit]) ∨
    ∃ management older edit, project.child? "dependencyManagement" = some management ∧
      WritesManaged document key version style management older edit ∧ edits = older ++ [edit] := by
  rw [manage] at computed
  simp only at computed
  split at computed
  · next none =>
    obtain ⟨edit, inserted, rfl⟩ := edits_of_orCut computed
    exact Or.inl ⟨none, edit, inserted, rfl⟩
  · next management isManagement =>
    refine Or.inr ⟨management, ?_⟩
    split at computed
    · next none =>
      obtain ⟨edit, inserted, rfl⟩ := edits_of_orCut computed
      refine ⟨[], edit, isManagement, ?_, rfl⟩
      rw [WritesManaged, none]
      exact ⟨rfl, inserted⟩
    · next list isList =>
      have writes {older : List Edit} {edit : Edit}
          (deletes : Deletes document (matchingChild? list "dependency" key) older)
          (inserted : insertFirst? document list (managed key version) style = some edit) :
          WritesManaged document key version style management older edit := by
        rw [matchingChild?_eq] at deletes
        rw [WritesManaged, isList]
        exact ⟨deletes, inserted⟩
      split at computed
      · next nothing =>
        rw [pure_bind] at computed
        obtain ⟨edit, inserted, rfl⟩ := edits_of_orCut computed
        exact ⟨[], edit, isManagement, writes (by rw [nothing]; rfl) inserted, rfl⟩
      · next existing isExisting =>
        obtain ⟨removed, deleted, computed⟩ := exists_of_bind_eq_ok computed
        rw [pure_bind] at computed
        obtain ⟨edit, inserted, same⟩ := exists_of_bind_eq_ok computed
        cases same
        refine ⟨[removed], edit, isManagement, writes ?_ (orCut_eq_ok_iff.mp inserted), rfl⟩
        rw [isExisting]
        exact ⟨removed, orCut_eq_ok_iff.mp deleted, rfl⟩

/-- A pinning remedy drops a version and writes another one. -/
theorem exists_of_pin {key : ArtifactKey} {effective chosen : String} {style : Style}
    {set : EditSet} (computed : pin document key effective chosen style = .ok (some set)) :
    ∃ project dropped written, projectElement document = .ok project ∧
      dropOwnVersion document project key = .ok dropped ∧
      manage document project key chosen style = .ok written ∧
      set = ⟨document.path, dropped ++ written⟩ := by
  rw [pin] at computed
  split at computed
  · cases computed
  · obtain ⟨project, isProject, computed⟩ := exists_of_bind_eq_ok computed
    obtain ⟨dropped, drops, computed⟩ := exists_of_bind_eq_ok computed
    obtain ⟨written, manages, same⟩ := exists_of_bind_eq_ok computed
    cases same
    exact ⟨project, dropped, written, isProject, drops, manages, rfl⟩

section

variable {tree : Tree} (parsed : Tree.parse document.text = .ok tree)
  (unmarked : withoutMark document.text.toList = document.text.toList)

include parsed unmarked

/-- A child that is removed is removed inside the element around it. -/
theorem delete?_child_stays {node child : Node} (has : tree.Has node)
    (member : child ∈ node.children) {edit : Edit}
    (deleted : delete? document child = some edit) : edit.Stays document.chars node.inner := by
  have seated := has.seated parsed unmarked
  have fits := has.fits parsed
  obtain ⟨starts, stops⟩ := fits.children.bounds child member
  have element : node.isText = false := by
    cases node with
    | text run => cases member
    | element tag children => rfl
  have open_ : node.isSelfClosing = false := by
    by_contra closed
    rw [fits.alone (by simpa using closed)] at member
    cases member
  exact delete?_stays deleted ((has.child member).seated parsed unmarked)
    (seated.innerStart element open_) (seated.innerStop element open_) starts stops

/-- The version that is dropped is dropped inside the project's own dependencies. -/
theorem dropOwnVersion_stays {project : Node} (has : tree.Has project) {key : ArtifactKey}
    {edits : List Edit} (computed : dropOwnVersion document project key = .ok edits) :
    edits = [] ∨ ∃ dependencies edit, project.child? "dependencies" = some dependencies ∧
      edits = [edit] ∧ edit.Stays document.chars dependencies.range := by
  have deletes := deletes_of_dropOwnVersion computed
  match found : directDependency? project key >>= Declaration.versionElement? with
  | none =>
    rw [found] at deletes
    exact Or.inl deletes
  | some version =>
    rw [found] at deletes
    obtain ⟨edit, deleted, rfl⟩ := deletes
    obtain ⟨declaration, own, isVersion⟩ := Option.bind_eq_some_iff.mp found
    obtain ⟨dependencies, isList, isFirst⟩ := exists_of_directDependency? own
    have isElement := List.mem_of_find?_eq_some isFirst
    have hasList := has.child (child?_mem isList).1
    have hasElement := hasList.child isElement
    refine Or.inr ⟨dependencies, edit, isList, rfl, ?_⟩
    have stays := delete?_child_stays parsed unmarked hasElement (child?_mem isVersion).1 deleted
    exact stays_of_child (hasList.fits parsed) isElement
      (stays_of_inner (hasElement.fits parsed) stays)

/-- The edits of a remedy for an element of a tree. -/
structure Placed (text : List Char) (outer : Span) (edits : List Edit) : Prop where
  stays : ∀ edit ∈ edits, edit.Stays text outer
  apart : edits.Pairwise Edit.Apart

omit parsed unmarked in
theorem Placed.singleton {text : List Char} {outer : Span} {edit : Edit}
    (stays : edit.Stays text outer) : Placed text outer [edit] :=
  ⟨by simpa using stays, List.pairwise_singleton _ _⟩

omit parsed unmarked in
theorem Placed.of_child {text : List Char} {node child : Node} {edits : List Edit}
    (placed : Placed text child.range edits) (fits : node.Fits)
    (member : child ∈ node.children) : Placed text node.range edits :=
  ⟨fun edit isEdit => stays_of_child fits member (placed.stays edit isEdit), placed.apart⟩

/-- What is written into the list of managed dependencies stands in front of all that is removed
there. -/
theorem manage_in_list_placed {dependencies : Node} (has : tree.Has dependencies)
    {existing : Option Node} (isChild : ∀ node ∈ existing, node ∈ dependencies.children)
    {older : List Edit} (deletes : Deletes document existing older) {snippet : Snippet}
    {style : Style} {edit : Edit}
    (inserted : insertFirst? document dependencies snippet style = some edit) :
    Placed document.chars dependencies.range (older ++ [edit]) := by
  have seated := has.seated parsed unmarked
  have fits := has.fits parsed
  have written := insertFirst?_stays inserted seated fits
  cases existing with
  | none =>
    rw [Deletes] at deletes
    subst deletes
    exact .singleton written
  | some node =>
    obtain ⟨removed, deleted, rfl⟩ := deletes
    have member := isChild node rfl
    have stays := delete?_child_stays parsed unmarked has member deleted
    have open_ : ¬ dependencies.isSelfClosing = true := by
      intro closed
      rw [fits.alone closed] at member
      cases member
    have span := insertFirst?_span inserted
    rw [if_neg open_] at span
    refine ⟨?_, List.pairwise_pair.mpr (Or.inr ?_)⟩
    · simp only [List.cons_append, List.nil_append, List.forall_mem_cons]
      exact ⟨stays_of_inner fits stays, written, by simp⟩
    · rw [span]
      exact stays.start

/-- What is written to manage a dependency does not meet what is dropped of the project's own. -/
theorem manage_placed {project : Node} (has : tree.Has project) {key : ArtifactKey}
    {version : String} {style : Style} {edits : List Edit}
    (computed : manage document project key version style = .ok edits) :
    Placed document.chars project.range edits ∧
      ∀ dependencies, project.child? "dependencies" = some dependencies →
        ∀ own : Edit, own.Stays document.chars dependencies.range →
          ∀ edit ∈ edits, own.Apart edit := by
  have seated := has.seated parsed unmarked
  have fits := has.fits parsed
  rcases writes_of_manage computed with
    ⟨-, edit, inserted, rfl⟩ | ⟨management, older, edit, isManagement, writes, rfl⟩
  · refine ⟨.singleton (insertLast?_stays inserted seated fits), ?_⟩
    intro dependencies isList own stays other member
    rw [List.mem_singleton.mp member]
    have ofList := (has.child (child?_mem isList).1).seated parsed unmarked
    have ends := ofList.stop (isText_of_name? (child?_mem isList).2)
    have behind := insertLast?_behind inserted seated fits (child?_mem isList).1 ends
    exact Or.inl (stays.stop.trans behind)
  · have hasManagement := has.child (child?_mem isManagement).1
    have fitsManagement := hasManagement.fits parsed
    -- All edits stay inside the element that manages dependencies.
    have placed : Placed document.chars management.range (older ++ [edit]) := by
      match found : management.child? "dependencies" with
      | none =>
        rw [WritesManaged, found] at writes
        obtain ⟨rfl, inserted⟩ := writes
        exact .singleton
          (insertFirst?_stays inserted (hasManagement.seated parsed unmarked) fitsManagement)
      | some list =>
        rw [WritesManaged, found] at writes
        have inList := manage_in_list_placed parsed unmarked
          (hasManagement.child (child?_mem found).1)
          (fun node isOlder => List.mem_of_find?_eq_some isOlder) writes.1 writes.2
        exact inList.of_child fitsManagement (child?_mem found).1
    refine ⟨placed.of_child fits (child?_mem isManagement).1,
      fun dependencies isList own stays other member => ?_⟩
    exact apart_of_stays stays (placed.stays other member)
      (apart_of_child? fits isList isManagement (by decide))

/-- No edit of a pinning remedy meets another. -/
theorem pin_placed {key : ArtifactKey} {effective chosen : String} {style : Style} {set : EditSet}
    (computed : pin document key effective chosen style = .ok (some set)) :
    (∀ edit ∈ set.added, edit.span.Rests document.chars) ∧ set.added.Pairwise Edit.Apart := by
  obtain ⟨project, dropped, written, isProject, drops, manages, rfl⟩ := exists_of_pin computed
  obtain rfl : tree = ⟨project⟩ :=
    Except.ok.inj (parsed.symm.trans (projectElement_eq_ok_iff.mp isProject).1)
  have has := Tree.has_root ⟨project⟩
  obtain ⟨placed, apart⟩ := manage_placed parsed unmarked has manages
  have rests : ∀ edit ∈ written, edit.span.Rests document.chars :=
    fun edit member => (placed.stays edit member).rests
  rcases dropOwnVersion_stays parsed unmarked has drops with
    rfl | ⟨dependencies, edit, isList, rfl, stays⟩
  · exact ⟨rests, placed.apart⟩
  · exact ⟨List.forall_mem_cons.mpr ⟨stays.rests, rests⟩,
      List.pairwise_cons.mpr ⟨apart dependencies isList edit stays, placed.apart⟩⟩

omit parsed unmarked in
/-- What an excluding remedy has found when it writes something. -/
theorem exists_of_exclude {forest : Report.Forest} {index : Nat} {style : Style} {set : EditSet}
    (computed : exclude document forest index style = .ok (some set)) :
    ∃ node root project declaration, forest.nodes[index]? = some node ∧ node.root ≠ index ∧
      forest.nodes[node.root]? = some root ∧ projectElement document = .ok project ∧
      directDependency? project root.entry.key = some declaration ∧
      excludeIn document declaration.element node.entry.key style = .ok (some set) := by
  rw [exclude] at computed
  match isNode : forest.nodes[index]? with
  | none =>
    rw [isNode] at computed
    cases computed
  | some node =>
    by_cases direct : node.root = index
    · simp [isNode, direct, throw, throwThe, MonadExceptOf.throw, bind, Except.bind] at computed
    · match isRoot : forest.nodes[node.root]? with
      | none => simp [isNode, direct, isRoot, pure, Except.pure] at computed
      | some root =>
        simp only [isNode, direct, isRoot, ↓reduceIte] at computed
        obtain ⟨project, isProject, computed⟩ := exists_of_bind_eq_ok computed
        split at computed
        · cases computed
        · next declaration isDeclared =>
          exact ⟨node, root, project, declaration, rfl, direct, isRoot, isProject, isDeclared,
            computed⟩

omit parsed unmarked in
/-- The one edit of an excluding remedy. -/
theorem exists_of_excludeIn {element : Node} {key : ArtifactKey} {style : Style} {set : EditSet}
    (computed : excludeIn document element key style = .ok (some set)) :
    ∃ edit, set = ⟨document.path, [edit]⟩ ∧
      (element.child? "exclusions" = none ∧
        insertLast? document element (.branch "exclusions" [newExclusion key]) style = some edit ∨
      ∃ exclusions, element.child? "exclusions" = some exclusions ∧
        matchingChild? exclusions "exclusion" key = none ∧
        insertFirst? document exclusions (newExclusion key) style = some edit) := by
  rw [excludeIn, exclusion_eq_newExclusion] at computed
  simp only at computed
  split at computed
  · next none =>
    obtain ⟨edit, inserted, same⟩ := exists_of_bind_eq_ok computed
    cases same
    exact ⟨edit, rfl, Or.inl ⟨none, orCut_eq_ok_iff.mp inserted⟩⟩
  · next exclusions isExclusions =>
    split at computed
    · cases computed
    · next absent =>
      obtain ⟨edit, inserted, same⟩ := exists_of_bind_eq_ok computed
      cases same
      refine ⟨edit, rfl, Or.inr ⟨exclusions, isExclusions, ?_, orCut_eq_ok_iff.mp inserted⟩⟩
      simpa using absent

/-- Neither does that of an excluding remedy, which is alone. -/
theorem exclude_placed {forest : Report.Forest} {index : Nat} {style : Style} {set : EditSet}
    (computed : exclude document forest index style = .ok (some set)) :
    (∀ edit ∈ set.added, edit.span.Rests document.chars) ∧ set.added.Pairwise Edit.Apart := by
  obtain ⟨node, root, project, declaration, -, -, -, isProject, isDeclared, computed⟩ :=
    exists_of_exclude computed
  obtain rfl : tree = ⟨project⟩ :=
    Except.ok.inj (parsed.symm.trans (projectElement_eq_ok_iff.mp isProject).1)
  obtain ⟨dependencies, isList, isFirst⟩ := exists_of_directDependency? isDeclared
  have hasElement : Tree.Has ⟨project⟩ declaration.element :=
    ((Tree.has_root ⟨project⟩).child (child?_mem isList).1).child
      (List.mem_of_find?_eq_some isFirst)
  obtain ⟨edit, rfl, ⟨-, inserted⟩ | ⟨exclusions, isExclusions, -, inserted⟩⟩ :=
    exists_of_excludeIn computed
  · have stays := insertLast?_stays inserted (hasElement.seated parsed unmarked)
      (hasElement.fits parsed)
    exact ⟨by simpa using stays.rests, List.pairwise_singleton _ _⟩
  · have has := hasElement.child (child?_mem isExclusions).1
    have stays := insertFirst?_stays inserted (has.seated parsed unmarked) (has.fits parsed)
    exact ⟨by simpa using stays.rests, List.pairwise_singleton _ _⟩

end

end Remedy

end PomLens
