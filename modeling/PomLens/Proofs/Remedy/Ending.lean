/-
This file proves that the remedies keep the endings of lines.

The lines of a document that end alike still end alike when a remedy was applied. What a remedy
writes ends its lines as the style does (`Snippet.Unbroken.uniform_render`), and no edit begins or
ends inside an ending, so all that is kept of the old text consists of whole endings as well
(`Amends.uniform`). This does not depend on where the edits stand or on how many there are.
-/

import PomLens.Proofs.Remedy.Sparing
import PomLens.Proofs.Text.Uniform

namespace PomLens

open Markup (Node)
open Text (Unbroken Uniform size)

/-! ### Edits of a uniform text -/

/-- A uniform text stays uniform when uniform texts take the place of spans that divide no
ending. -/
theorem Amends.uniform {eol : List Char} (isEnding : eol = ['\n'] ∨ eol = ['\r', '\n'])
    {before old new : List Char} {edits : List Edit}
    (amends : Amends (size before) old edits new) (uniform : Uniform eol old)
    (rests : ∀ edit ∈ edits, edit.span.Rests (before ++ old))
    (texts : ∀ edit ∈ edits, Uniform eol edit.text.toList) : Uniform eol new := by
  generalize atOffset : size before = offset at amends
  induction amends generalizing before with
  | keep offset text => exact uniform
  | @edit offset kept removed edit after new later start stop rest inductionHypothesis =>
    obtain ⟨here, others⟩ := List.forall_mem_cons.mp rests
    obtain ⟨text, laterTexts⟩ := List.forall_mem_cons.mp texts
    have whole : before ++ (kept ++ (removed ++ after)) = (before ++ kept ++ removed) ++ after := by
      simp
    have placeStart : edit.span.start = size (before ++ kept) := by
      rw [Text.size_append, atOffset, start]
    have placeStop : edit.span.stop = size (before ++ kept ++ removed) := by
      rw [Text.size_append, ← placeStart, stop, start]
    have outsideStart := here.start.outside
    have outsideStop := here.stop.outside
    rw [placeStart, ← List.append_assoc, Text.inReturnFeed_iff] at outsideStart
    rw [placeStop, whole, Text.inReturnFeed_iff] at outsideStop
    obtain ⟨ofKept, further⟩ := uniform.cut isEnding fun isReturn isFeed =>
      outsideStart ⟨by rw [List.getLast?_append, isReturn]; rfl, isFeed⟩
    obtain ⟨-, ofAfter⟩ := further.cut isEnding fun isReturn isFeed =>
      outsideStop ⟨by rw [List.getLast?_append, isReturn]; rfl, isFeed⟩
    have ofNew := inductionHypothesis ofAfter (by rwa [whole] at others) laterTexts placeStop.symm
    exact ofKept.append (text.append ofNew)

/-- Edits that do not meet and divide no ending can be made, and leave a uniform text. -/
theorem EditSet.exists_uniform {eol : List Char} (isEnding : eol = ['\n'] ∨ eol = ['\r', '\n'])
    {set : EditSet} {text : String} (uniform : Uniform eol text.toList)
    (rests : ∀ edit ∈ set.added, edit.span.Rests text.toList)
    (apart : set.added.Pairwise Edit.Apart)
    (texts : ∀ edit ∈ set.added, Uniform eol edit.text.toList) :
    ∃ new, set.applyTo text = .ok new ∧ Uniform eol new.toList := by
  have inSet (edit : Edit) (member : edit ∈ set.edits) : edit ∈ set.added :=
    set.edits_perm.mem_iff.mp member
  have follow : Follow text.toList set.edits :=
    follow_edits_iff.mpr ⟨fun edit member => Edit.fits_of_rests (rests edit member), apart⟩
  obtain ⟨new, amends⟩ := @Follow.exists_amends [] text.toList set.edits follow (by simp)
  have made : Uniform eol new := amends.uniform isEnding uniform
    (fun edit member => rests edit (inSet edit member))
    fun edit member => texts edit (inSet edit member)
  exact ⟨String.ofList new, amends.applyTo, by rwa [String.toList_ofList]⟩

namespace Remedy

/-! ### What a remedy writes -/

/-- No line ends in a name or a value of the snippet. -/
inductive Snippet.Unbroken : Snippet → Prop
  | leaf {name value : String} (ofName : Text.Unbroken name.toList)
    (ofValue : Text.Unbroken value.toList) : Unbroken (.leaf name value)
  | branch {name : String} {children : List Snippet} (ofName : Text.Unbroken name.toList)
    (inside : ∀ child ∈ children, Unbroken child) : Unbroken (.branch name children)

theorem linesOf_eq_flatMap (level : Nat) (snippets : List Snippet) :
    linesOf level snippets = snippets.flatMap (Snippet.lines level) := by
  induction snippets with
  | nil => rfl
  | cons snippet rest inductionHypothesis =>
    rw [linesOf, inductionHypothesis, List.flatMap_cons]

theorem unbroken_openingTag {name : String} (ofName : Unbroken name.toList) :
    Unbroken (openingTag name).toList := by
  rw [openingTag, String.toList_append, String.toList_append]
  exact .append (.append (by decide) ofName) (by decide)

theorem unbroken_closingTag {name : String} (ofName : Unbroken name.toList) :
    Unbroken (closingTag name).toList := by
  rw [closingTag, String.toList_append, String.toList_append]
  exact .append (.append (by decide) ofName) (by decide)

/-- The lines of such a snippet are lines. -/
theorem Snippet.Unbroken.lines {snippet : Snippet} (unbroken : snippet.Unbroken) (level : Nat) :
    ∀ line ∈ snippet.lines level, Text.Unbroken line.2.toList := by
  induction unbroken generalizing level with
  | leaf ofName ofValue =>
    rw [Snippet.lines, List.forall_mem_singleton, String.toList_append, String.toList_append]
    exact ((unbroken_openingTag ofName).append ofValue).append (unbroken_closingTag ofName)
  | branch ofName _ inductionHypothesis =>
    rw [Snippet.lines, linesOf_eq_flatMap]
    intro line member
    rcases List.mem_append.mp member with inFront | last
    · rcases List.mem_cons.mp inFront with rfl | inside
      · exact unbroken_openingTag ofName
      · obtain ⟨child, isChild, inChild⟩ := List.mem_flatMap.mp inside
        exact inductionHypothesis child isChild (level + 1) line inChild
    · rw [List.mem_singleton.mp last]
      exact unbroken_closingTag ofName

theorem unbroken_of_indent {indent : List Char} (blanks : ∀ char ∈ indent, char = ' ' ∨ char = '\t') :
    Unbroken indent := by
  intro char member
  rcases blanks char member with rfl | rfl <;> rfl

theorem unbroken_of_plainName {name : List Char} (plain : Markup.plainName name) :
    Unbroken name := by
  intro char member
  have letter := List.all_eq_true.mp (Bool.and_eq_true_iff.mp plain).2 char member
  rw [Text.isReturn, Bool.or_eq_false_iff, beq_eq_false_iff_ne, beq_eq_false_iff_ne]
  constructor <;> rintro rfl <;> exact absurd letter (by decide)

section

variable {style : Style} (regular : style.Regular)

include regular

theorem uniform_lineStart {base : String} (ofBase : Unbroken base.toList) (level : Nat) :
    Uniform style.eol.toList (lineStart base style level) := by
  have indents : Unbroken ((List.replicate level style.indent).flatMap String.toList) :=
    .flatMap fun indent repeated => by
      rw [List.eq_of_mem_replicate repeated]
      exact unbroken_of_indent regular.indent
  exact (Text.uniform_eol.append ofBase.uniform).append indents.uniform

theorem Snippet.Unbroken.uniform_render {snippet : Snippet} (unbroken : snippet.Unbroken)
    {base : String} (ofBase : Text.Unbroken base.toList) :
    Uniform style.eol.toList (snippet.render base style).toList := by
  rw [Snippet.render, String.toList_join, List.flatMap_map]
  refine .flatMap fun line member => ?_
  rw [toList_renderLine]
  exact (uniform_lineStart regular ofBase line.1).append (unbroken.lines 1 line member).uniform

section

variable {document : Document} {container : Node} {name : String}
  (named : container.name? = some name) (ofName : Unbroken name.toList) {snippet : Snippet}
  (unbroken : snippet.Unbroken) {edit : Edit}

include named ofName unbroken

theorem uniform_of_expand? (expanded : expand? document container snippet style = some edit) :
    Uniform style.eol.toList edit.text.toList := by
  obtain ⟨base, isBase, expanded⟩ := Option.bind_eq_some_iff.mp expanded
  obtain rfl := Option.some.inj expanded
  have ofBase := unbroken_of_indent fun char => mem_baseIndent? isBase
  simp only [named, Option.getD_some, String.toList_append]
  exact ((((unbroken_openingTag ofName).uniform.append
    (unbroken.uniform_render regular ofBase)).append Text.uniform_eol).append
      ofBase.uniform).append (unbroken_closingTag ofName).uniform

theorem uniform_of_insertFirst?
    (inserted : insertFirst? document container snippet style = some edit) :
    Uniform style.eol.toList edit.text.toList := by
  rw [insertFirst?] at inserted
  split at inserted
  · exact uniform_of_expand? regular named ofName unbroken inserted
  · obtain ⟨base, isBase, inserted⟩ := Option.bind_eq_some_iff.mp inserted
    obtain rfl := Option.some.inj inserted
    exact unbroken.uniform_render regular (unbroken_of_indent fun char => mem_baseIndent? isBase)

theorem uniform_of_insertLast?
    (inserted : insertLast? document container snippet style = some edit) :
    Uniform style.eol.toList edit.text.toList := by
  rw [insertLast?] at inserted
  split at inserted
  · exact uniform_of_expand? regular named ofName unbroken inserted
  · obtain ⟨base, isBase, inserted⟩ := Option.bind_eq_some_iff.mp inserted
    obtain rfl := Option.some.inj inserted
    have ofBase := unbroken_of_indent fun char => mem_baseIndent? isBase
    simp only [String.toList_append]
    exact ((unbroken.uniform_render regular ofBase).append Text.uniform_eol).append ofBase.uniform

end

end

/-! ### Both remedies -/

/-- No line ends in the names of the artifact. -/
structure UnbrokenKey (key : ArtifactKey) : Prop where
  group : Unbroken key.group.toList
  artifact : Unbroken key.artifact.toList

/-- All lines end as the style has it once the edits of the set are made, and no edit begins or ends
between a carriage return and a line feed. -/
structure KeepsEndings (document : Document) (style : Style) (set : EditSet) : Prop where
  applied : ∃ new, set.applyTo document.text = .ok new ∧ Uniform style.eol.toList new.toList
  rests : ∀ edit ∈ set.added, edit.span.Rests document.chars

theorem Style.Regular.isEnding {style : Style} (regular : style.Regular) :
    style.eol.toList = ['\n'] ∨ style.eol.toList = ['\r', '\n'] :=
  regular.eol.imp (fun same => by rw [same]; rfl) fun same => by rw [same]; rfl

section

variable {key : ArtifactKey} (ofKey : UnbrokenKey key)

include ofKey

theorem unbroken_managed {version : String} (ofVersion : Unbroken version.toList) :
    (managed key version).Unbroken := by
  refine .branch (by decide) ?_
  simp only [List.forall_mem_cons, List.not_mem_nil, false_imp_iff, implies_true, and_true]
  exact ⟨.leaf (by decide) ofKey.group, .leaf (by decide) ofKey.artifact,
    .leaf (by decide) ofVersion⟩

theorem unbroken_wrapped {version : String} (ofVersion : Unbroken version.toList) :
    (wrapped key version).Unbroken :=
  .branch (by decide) (by simpa using unbroken_managed ofKey ofVersion)

theorem unbroken_wholeManagement {version : String} (ofVersion : Unbroken version.toList) :
    (wholeManagement key version).Unbroken :=
  .branch (by decide) (by simpa using unbroken_wrapped ofKey ofVersion)

theorem unbroken_newExclusion : (newExclusion key).Unbroken := by
  refine .branch (by decide) ?_
  simp only [List.forall_mem_cons, List.not_mem_nil, false_imp_iff, implies_true, and_true]
  exact ⟨.leaf (by decide) ofKey.group, .leaf (by decide) ofKey.artifact⟩

theorem unbroken_wholeExclusions : (wholeExclusions key).Unbroken :=
  .branch (by decide) (by simpa using unbroken_newExclusion ofKey)

end

section

variable {document : Document} {style : Style}

theorem uniform_of_deletes {found : Option Node} {edits : List Edit}
    (deletes : Deletes document found edits) (eol : List Char) :
    ∀ edit ∈ edits, Uniform eol edit.text.toList := by
  cases found with
  | none =>
    rw [Deletes] at deletes
    simp [deletes]
  | some node =>
    obtain ⟨edit, deleted, rfl⟩ := deletes
    obtain ⟨front, lead, covered, tail, back, removes⟩ := exists_removes deleted
    rw [List.forall_mem_singleton, removes.edit]
    exact .nil

variable (regular : style.Regular)

include regular

theorem uniform_of_manage {project : Node} (named : project.name? = some "project")
    {key : ArtifactKey} (ofKey : UnbrokenKey key) {version : String}
    (ofVersion : Unbroken version.toList) {edits : List Edit}
    (computed : manage document project key version style = .ok edits) :
    ∀ edit ∈ edits, Uniform style.eol.toList edit.text.toList := by
  rcases writes_of_manage computed with
    ⟨-, edit, inserted, rfl⟩ | ⟨management, older, edit, isManagement, writes, rfl⟩
  · rw [List.forall_mem_singleton]
    exact uniform_of_insertLast? regular named (by decide)
      (unbroken_wholeManagement ofKey ofVersion) inserted
  · match found : management.child? "dependencies" with
    | none =>
      rw [WritesManaged, found] at writes
      obtain ⟨rfl, inserted⟩ := writes
      rw [List.nil_append, List.forall_mem_singleton]
      exact uniform_of_insertFirst? regular (child?_mem isManagement).2 (by decide)
        (unbroken_wrapped ofKey ofVersion) inserted
    | some list =>
      rw [WritesManaged, found] at writes
      obtain ⟨deletes, inserted⟩ := writes
      rw [List.forall_mem_append, List.forall_mem_singleton]
      exact ⟨uniform_of_deletes deletes _, uniform_of_insertFirst? regular (child?_mem found).2
        (by decide) (unbroken_managed ofKey ofVersion) inserted⟩

theorem uniform_of_excludeIn {element : Node} {name : String} (named : element.name? = some name)
    (plain : Markup.plainName name.toList) {key : ArtifactKey} (ofKey : UnbrokenKey key)
    {set : EditSet} (computed : excludeIn document element key style = .ok (some set)) :
    ∀ edit ∈ set.added, Uniform style.eol.toList edit.text.toList := by
  obtain ⟨edit, rfl, ⟨-, inserted⟩ | ⟨exclusions, isExclusions, -, inserted⟩⟩ :=
    exists_of_excludeIn computed
  · rw [List.forall_mem_singleton]
    exact uniform_of_insertLast? regular named (unbroken_of_plainName plain)
      (unbroken_wholeExclusions ofKey) inserted
  · rw [List.forall_mem_singleton]
    exact uniform_of_insertFirst? regular (child?_mem isExclusions).2 (by decide)
      (unbroken_newExclusion ofKey) inserted

end

section

variable {document : Document} {style : Style} (noMark : ¬ BeginsWithMark document.text)
  (regular : style.Regular) (uniform : Uniform style.eol.toList document.chars)

include noMark regular uniform

theorem pin_keepsEndings {key : ArtifactKey} (ofKey : UnbrokenKey key) {effective chosen : String}
    (ofChosen : Unbroken chosen.toList) {set : EditSet}
    (computed : pin document key effective chosen style = .ok (some set)) :
    KeepsEndings document style set := by
  obtain ⟨project, dropped, written, isProject, drops, manages, rfl⟩ := exists_of_pin computed
  obtain ⟨parsed, -, named⟩ := projectElement_eq_ok_iff.mp isProject
  obtain ⟨rests, apart⟩ := pin_placed parsed (withoutMark_eq noMark) computed
  have texts := List.forall_mem_append.mpr
    ⟨uniform_of_deletes (deletes_of_dropOwnVersion drops) style.eol.toList,
      uniform_of_manage regular named ofKey ofChosen manages⟩
  exact ⟨EditSet.exists_uniform regular.isEnding uniform rests apart texts, rests⟩

theorem exclude_keepsEndings {forest : Report.Forest} {index : Nat} {node : Report.Node}
    (isNode : forest.nodes[index]? = some node) (ofKey : UnbrokenKey node.entry.key)
    {set : EditSet} (computed : exclude document forest index style = .ok (some set)) :
    KeepsEndings document style set := by
  obtain ⟨node', root, project, declaration, isNode', -, -, isProject, isDeclared, writes⟩ :=
    exists_of_exclude computed
  obtain rfl := Option.some.inj (isNode'.symm.trans isNode)
  have parsed := (projectElement_eq_ok_iff.mp isProject).1
  obtain ⟨rests, apart⟩ := exclude_placed parsed (withoutMark_eq noMark) computed
  obtain ⟨dependencies, isList, isFirst⟩ := exists_of_directDependency? isDeclared
  obtain ⟨name, named, plain⟩ := plainName_of_declaring (List.find?_some isFirst)
  have texts := uniform_of_excludeIn regular named plain ofKey writes
  exact ⟨EditSet.exists_uniform regular.isEnding uniform rests apart texts, rests⟩

end

/-- The remedies keep the endings of lines. If all lines of a document end alike, as the style has
it, all lines of the new text do as well, and no ending of the old text was divided. -/
theorem keepsEndings_of_remedy (document : Document) (style : Style)
    (noMark : ¬ BeginsWithMark document.text) (regular : style.Regular)
    (uniform : Uniform style.eol.toList document.chars) :
    (∀ key effective chosen set, UnbrokenKey key → Unbroken chosen.toList →
      pin document key effective chosen style = .ok (some set) →
      KeepsEndings document style set) ∧
    ∀ (forest : Report.Forest) index node set, forest.nodes[index]? = some node →
      UnbrokenKey node.entry.key → exclude document forest index style = .ok (some set) →
      KeepsEndings document style set :=
  ⟨fun _ _ _ _ ofKey ofChosen computed =>
      pin_keepsEndings noMark regular uniform ofKey ofChosen computed,
    fun _ _ _ _ isNode ofKey computed =>
      exclude_keepsEndings noMark regular uniform isNode ofKey computed⟩

/-- Tabs indent, and lines end with a carriage return and a line feed. -/
def Style.returnFeed : Style :=
  ⟨"\t", "\r\n"⟩

def returnFeedLines : List String :=
  ["<project>", "\t<dependencyManagement/>", "\t<dependencies><dependency>",
    "\t\t<groupId>g</groupId>", "\t\t<artifactId>a</artifactId>", "\t\t<version>1</version> ",
    "\t</dependency></dependencies>", "</project>"]

/-- A project whose lines all end with a carriage return and a line feed. -/
def returnFeedDocument : Document where
  path := ⟨"/p/pom.xml"⟩
  text := String.join (returnFeedLines.map (· ++ "\r\n"))

theorem uniform_returnFeedDocument :
    Uniform Style.returnFeed.eol.toList returnFeedDocument.chars := by
  rw [Document.chars, returnFeedDocument, String.toList_join, List.flatMap_map]
  refine .flatMap fun line member => ?_
  have unbroken : ∀ line ∈ returnFeedLines, Unbroken line.toList := by decide +kernel
  rw [String.toList_append]
  exact (unbroken line member).uniform.append Text.uniform_eol

/-- One edit expands an empty element and one removes a line, and a third one excludes. -/
theorem keepsEndings_of_remedy_returnFeed :
    (∃ set, pin returnFeedDocument ⟨"g", "a"⟩ "1" "2" Style.returnFeed = .ok (some set) ∧
      set.added.length = 2 ∧ KeepsEndings returnFeedDocument Style.returnFeed set) ∧
    ∃ set, exclude returnFeedDocument pulling 1 Style.returnFeed = .ok (some set) ∧
      KeepsEndings returnFeedDocument Style.returnFeed set := by
  have noMark : ¬ BeginsWithMark returnFeedDocument.text := by
    unfold BeginsWithMark
    decide +kernel
  obtain ⟨pins, excludes⟩ := keepsEndings_of_remedy returnFeedDocument Style.returnFeed noMark
    (by decide +kernel) uniform_returnFeedDocument
  constructor
  · have twoEdits : (pin returnFeedDocument ⟨"g", "a"⟩ "1" "2"
        Style.returnFeed).toOption.join.map (fun set => set.added.length) = some 2 := by
      decide +kernel
    obtain ⟨set, computed, two⟩ := Option.map_eq_some_iff.mp twoEdits
    rw [join_toOption_eq_some_iff] at computed
    exact ⟨set, computed, two,
      pins _ _ _ set ⟨by decide +kernel, by decide +kernel⟩ (by decide +kernel) computed⟩
  · have writes :
        (exclude returnFeedDocument pulling 1 Style.returnFeed).toOption.join.isSome = true := by
      decide +kernel
    obtain ⟨set, computed⟩ := Option.isSome_iff_exists.mp writes
    rw [join_toOption_eq_some_iff] at computed
    exact ⟨set, computed,
      excludes pulling 1 _ set rfl ⟨by decide +kernel, by decide +kernel⟩ computed⟩

end Remedy

end PomLens
