/-
This file proves which occurrence of an artifact the command that excludes commits to, and that
this occurrence alone decides what the command comes to.

An artifact may occur in a forest many times. An occurrence that lost to another version is taken
before one that was merely pulled in, and that before a direct dependency; within a sort, the first
of the report is taken (`Prefers`). Only then is the descriptor asked whether it declares the direct
dependency above. If it does, an exclusion can always be written there, since every element of a
document stands behind an indentation (`exists_exclude`). If it does not, the command fails, even
where it would have succeeded for another occurrence (`exclude_commits`).
-/

import PomLens.Proofs.CommandLine.Writing
import PomLens.Proofs.Remedy.Excluding

namespace PomLens

/-! ### Occurrences -/

namespace Report

namespace Forest

/-- The node of this number is one of an artifact. -/
def Occurs (forest : Forest) (key : ArtifactKey) (index : Nat) (node : Node) : Prop :=
  forest.nodes[index]? = some node ∧ node.entry.key = key

/-- The first occurrence of its sort, in report order. -/
structure IsFirst (forest : Forest) (key : ArtifactKey) (sort : Node → Bool) (index : Nat)
    (node : Node) : Prop where
  occurs : forest.Occurs key index node
  ofSort : sort node = true
  earliest : ∀ earlier other, earlier < index → forest.Occurs key earlier other →
    sort other = false

/-- The occurrence that is to be excluded. -/
inductive Prefers (forest : Forest) (key : ArtifactKey) (index : Nat) (node : Node) : Prop
  /-- It lost to another version. -/
  | conflict (first : forest.IsFirst key (·.entry.isConflict) index node)
  /-- Another dependency pulled it in, and none lost. -/
  | pulledIn (noConflict : ∀ other found, forest.Occurs key other found →
        found.entry.isConflict = false)
      (first : forest.IsFirst key (·.parent.isSome) index node)
  /-- All are direct dependencies, and none lost. -/
  | direct (noConflict : ∀ other found, forest.Occurs key other found →
        found.entry.isConflict = false)
      (allDirect : ∀ other found, forest.Occurs key other found → found.parent.isSome = false)
      (first : forest.IsFirst key (fun _ => true) index node)

theorem Prefers.occurs {forest : Forest} {key : ArtifactKey} {index : Nat} {node : Node}
    (prefers : forest.Prefers key index node) : forest.Occurs key index node := by
  cases prefers with
  | conflict first => exact first.occurs
  | pulledIn _ first => exact first.occurs
  | direct _ _ first => exact first.occurs

section

variable {forest : Forest} {key : ArtifactKey} {sort : Node → Bool}

theorem any_occurs_iff {index : Nat} :
    ((forest.nodes[index]?.any fun node => node.entry.key == key) = true ∧
        forest.nodes[index]?.any sort = true) ↔
      ∃ node, forest.Occurs key index node ∧ sort node = true := by
  cases found : forest.nodes[index]? with
  | none => simp [Occurs, found]
  | some node => simp [Occurs, found]

/-- A search among the nodes of an artifact finds the first one of its sort. -/
theorem find?_find_eq_some_iff {index : Nat} :
    ((forest.find key).find? fun index => forest.nodes[index]?.any sort) = some index ↔
      ∃ node, forest.IsFirst key sort index node := by
  rw [find, indicesWhere, List.find?_filter, List.find?_range_eq_some]
  simp only [decide_eq_true_eq, any_occurs_iff, Bool.not_eq_true', decide_eq_false_iff_not,
    List.mem_range]
  constructor
  · rintro ⟨⟨node, occurs, ofSort⟩, -, none⟩
    refine ⟨node, occurs, ofSort, fun earlier other before otherOccurs => ?_⟩
    exact Bool.eq_false_iff.mpr fun isSort => none earlier before ⟨other, otherOccurs, isSort⟩
  · rintro ⟨node, occurs, ofSort, earliest⟩
    refine ⟨⟨node, occurs, ofSort⟩, lt_of_getElem? occurs.1, ?_⟩
    rintro earlier before ⟨other, otherOccurs, isSort⟩
    rw [earliest earlier other before otherOccurs] at isSort
    cases isSort

theorem find?_find_eq_none_iff :
    ((forest.find key).find? fun index => forest.nodes[index]?.any sort) = none ↔
      ∀ index node, forest.Occurs key index node → sort node = false := by
  rw [find, indicesWhere, List.find?_filter, List.find?_eq_none]
  simp only [decide_eq_true_eq, any_occurs_iff, List.mem_range]
  constructor
  · intro none index node occurs
    exact Bool.eq_false_iff.mpr fun isSort =>
      none index (lt_of_getElem? occurs.1) ⟨node, occurs, isSort⟩
  · rintro none index - ⟨node, occurs, isSort⟩
    rw [none index node occurs] at isSort
    cases isSort

theorem head?_find :
    (forest.find key).head? =
      (forest.find key).find? fun index => forest.nodes[index]?.any fun _ => true := by
  have occurs : ∀ index ∈ forest.find key, (forest.nodes[index]?.any fun _ => true) = true := by
    intro index member
    rw [find, indicesWhere, List.mem_filter, Option.any_eq_true] at member
    obtain ⟨-, node, isNode, -⟩ := member
    rw [isNode]
    rfl
  cases all : forest.find key with
  | nil => rfl
  | cons first rest => rw [List.head?_cons, List.find?_cons, occurs first (by simp [all])]

end

end Forest

end Report

namespace CommandLine

open Report (Forest Node)

variable {forest : Forest} {key : ArtifactKey}

/-- What is taken is what is preferred. -/
theorem occurrenceToExclude?_eq_some_iff {index : Nat} :
    occurrenceToExclude? forest key = some index ↔ ∃ node, forest.Prefers key index node := by
  have conflicts := @Forest.find?_find_eq_none_iff forest key (·.entry.isConflict)
  have others := @Forest.find?_find_eq_none_iff forest key (·.parent.isSome)
  simp only [occurrenceToExclude?, Forest.head?_find, Option.orElse_eq_orElse,
    Option.orElse_eq_or, Option.or_eq_some_iff, Forest.find?_find_eq_some_iff, conflicts, others]
  constructor
  · rintro (⟨node, first⟩ | ⟨noConflict, ⟨node, first⟩ | ⟨allDirect, node, first⟩⟩)
    · exact ⟨node, .conflict first⟩
    · exact ⟨node, .pulledIn noConflict first⟩
    · exact ⟨node, .direct noConflict allDirect first⟩
  · rintro ⟨node, first | ⟨noConflict, first⟩ | ⟨noConflict, allDirect, first⟩⟩
    · exact Or.inl ⟨node, first⟩
    · exact Or.inr ⟨noConflict, Or.inl ⟨node, first⟩⟩
    · exact Or.inr ⟨noConflict, Or.inr ⟨allDirect, node, first⟩⟩

/-- No two occurrences are preferred. -/
theorem unique_of_prefers {index other : Nat} {node found : Node}
    (prefers : forest.Prefers key index node) (alsoPrefers : forest.Prefers key other found) :
    index = other ∧ node = found := by
  have taken := occurrenceToExclude?_eq_some_iff.mpr ⟨node, prefers⟩
  rw [occurrenceToExclude?_eq_some_iff.mpr ⟨found, alsoPrefers⟩] at taken
  obtain rfl := Option.some.inj taken
  exact ⟨rfl, Option.some.inj (prefers.occurs.1.symm.trans alsoPrefers.occurs.1)⟩

/-- Nothing is taken only if there is nothing. -/
theorem not_occurs_of_occurrenceToExclude? (none : occurrenceToExclude? forest key = none)
    (index : Nat) (node : Node) : ¬ forest.Occurs key index node := by
  intro occurs
  simp only [occurrenceToExclude?, Forest.head?_find, Option.orElse_eq_orElse,
    Option.orElse_eq_or, Option.or_eq_none_iff, Forest.find?_find_eq_none_iff] at none
  cases none.2.2 index node occurs

end CommandLine

namespace Remedy

open Markup

/-! ### What cannot be excluded -/

/-- An element of the project's own dependencies declares an artifact. -/
def Declared (project : Node) (key : ArtifactKey) : Prop :=
  ∃ dependencies declaration, project.child? "dependencies" = some dependencies ∧
    declaration ∈ dependencies.declarations ∧ declaration.declares key = true

theorem isSome_directDependency?_iff {project : Node} {key : ArtifactKey} :
    (directDependency? project key).isSome ↔ Declared project key := by
  rw [directDependency?, Declared]
  cases project.child? "dependencies" with
  | none => simp
  | some dependencies => simp [List.find?_isSome]

section

variable {document : Document} {forest : Report.Forest} {index : Nat} {node root : Report.Node}
  (isNode : forest.nodes[index]? = some node) (style : Style)

include isNode

/-- Nothing pulls in a direct dependency. -/
theorem exclude_direct (direct : node.root = index) :
    exclude document forest index style = .error (.directDependency node.entry.key) := by
  simp [exclude, isNode, direct, throw, throwThe, MonadExceptOf.throw, bind, Except.bind]

/-- What pulls it in may be declared elsewhere. -/
theorem exclude_undeclared (notDirect : node.root ≠ index)
    (isRoot : forest.nodes[node.root]? = some root) {project : Node}
    (isProject : projectElement document = .ok project)
    (undeclared : ¬ Declared project root.entry.key) :
    exclude document forest index style = .error (.notDeclared root.entry.key) := by
  have none : directDependency? project root.entry.key = none :=
    Option.not_isSome_iff_eq_none.mp (mt isSome_directDependency?_iff.mp undeclared)
  simp [exclude, excludeEntry, isNode, notDirect, isRoot, isProject, none, throw, throwThe,
    MonadExceptOf.throw, bind, Except.bind]

end

/-! ### Writing is always possible -/

section

variable {document : Document} {node : Node} {snippet : Snippet} {style : Style}
  (seated : node.Seated document.chars)

include seated

/-- A seated node starts on a line, and that has an indentation. -/
theorem exists_baseIndent? : ∃ base, baseIndent? document node = some base := by
  obtain ⟨⟨before, after⟩, cut⟩ := Option.isSome_iff_exists.mp seated.range.start.boundary
  have inside : min node.range.start (Text.size document.chars) = node.range.start := by
    obtain ⟨whole, bytes⟩ := Text.cut?_eq_some_iff.mp cut
    rw [whole, ← bytes]
    simp
  exact ⟨_, by rw [baseIndent?, Document.lineIndent?, inside, cut]; rfl⟩

theorem exists_expand? : ∃ edit, expand? document node snippet style = some edit := by
  obtain ⟨base, isBase⟩ := exists_baseIndent? seated
  exact ⟨_, by rw [expand?, isBase]; rfl⟩

theorem exists_insertFirst? : ∃ edit, insertFirst? document node snippet style = some edit := by
  obtain ⟨base, isBase⟩ := exists_baseIndent? seated
  rw [insertFirst?, isBase]
  split
  · exact exists_expand? seated
  · exact ⟨_, rfl⟩

theorem exists_insertLast? : ∃ edit, insertLast? document node snippet style = some edit := by
  obtain ⟨base, isBase⟩ := exists_baseIndent? seated
  rw [insertLast?, isBase]
  split
  · exact exists_expand? seated
  · exact ⟨_, rfl⟩

end

section

variable {document : Document} {tree : Tree} (parsed : Tree.parse document.text = .ok tree)
  (unmarked : withoutMark document.text.toList = document.text.toList)

include parsed unmarked

/-- An exclusion can be written into any element, if it is not there already. -/
theorem exists_excludeIn {element : Node} (has : tree.Has element) (key : ArtifactKey)
    (style : Style) : ∃ set, excludeIn document element key style = .ok set := by
  rw [excludeIn]
  simp only
  cases found : element.child? "exclusions" with
  | none =>
    obtain ⟨edit, inserted⟩ := exists_insertLast? (has.seated parsed unmarked)
    exact ⟨_, by rw [inserted]; rfl⟩
  | some exclusions =>
    simp only
    split
    · exact ⟨_, rfl⟩
    · have hasList := has.child (child?_mem found).1
      obtain ⟨edit, inserted⟩ := exists_insertFirst? (hasList.seated parsed unmarked)
      exact ⟨_, by rw [inserted]; rfl⟩

/-- What a declared dependency pulls in can be excluded from it, and the edit can be made. -/
theorem exists_exclude {forest : Report.Forest} {index : Nat} {node root : Report.Node}
    (isNode : forest.nodes[index]? = some node) (notDirect : node.root ≠ index)
    (isRoot : forest.nodes[node.root]? = some root)
    (isProject : projectElement document = .ok tree.root)
    (declared : Declared tree.root root.entry.key) (style : Style) :
    exclude document forest index style = .ok none ∨
      ∃ set new, exclude document forest index style = .ok (some set) ∧
        set.applyTo document.text = .ok new := by
  obtain ⟨declaration, isDeclared⟩ :=
    Option.isSome_iff_exists.mp (isSome_directDependency?_iff.mpr declared)
  obtain ⟨dependencies, isList, isFirst⟩ := exists_of_directDependency? isDeclared
  have hasElement : tree.Has declaration.element :=
    (tree.has_root.child (child?_mem isList).1).child (List.mem_of_find?_eq_some isFirst)
  obtain ⟨result, computed⟩ :=
    exists_excludeIn parsed unmarked hasElement node.entry.key style
  rw [← exclude_eq isNode notDirect isRoot isProject isDeclared] at computed
  cases result with
  | none => exact Or.inl computed
  | some set =>
    obtain ⟨rests, apart⟩ := exclude_placed parsed unmarked computed
    obtain ⟨new, applied, -⟩ := (edited_of_apart rests apart).applied
    exact Or.inr ⟨set, new, computed, applied⟩

end

end Remedy

namespace CommandLine

open Markup (Tree)

/-! ### What was loaded -/

/-- Two steps that succeed have each succeeded. -/
theorem exists_of_outcome_bind {α β : Type} {step : Step α} {next : α → Step β} {result : β}
    {files after : FileTree} (succeeds : (step >>= next).outcome files = (.ok result, after)) :
    ∃ value middle, step.outcome files = (.ok value, middle) ∧
      (next value).outcome middle = (.ok result, after) := by
  rw [outcome_bind] at succeeds
  split at succeeds
  · next value middle first => exact ⟨value, middle, first, succeeds⟩
  · cases succeeds

theorem eq_ok_of_orFail {ε α : Type} {wrap : ε → CommandError} {result : Except ε α} {value : α}
    {files after : FileTree} (succeeds : (orFail wrap result).outcome files = (.ok value, after)) :
    result = .ok value := by
  cases result with
  | error error => cases succeeds
  | ok found =>
    cases succeeds
    rfl

/-- A descriptor is read from a text whose root element is a project. -/
theorem exists_of_parseDeclared {project : Project} {text : String} {value : Unit}
    (reads : (project.parseDeclared text).2 = .ok value) :
    ∃ tree, Tree.parse text = .ok tree ∧ tree.root.name? = some "project" := by
  rw [Project.parseDeclared] at reads
  split at reads
  · next descriptor isDescriptor =>
    obtain ⟨root, isRoot, named⟩ := exists_of_bind_eq_ok isDescriptor
    rw [Descriptor.rootElement] at isRoot
    split at isRoot
    · cases isRoot
    · next tree parsed =>
      cases isRoot
      refine ⟨tree, parsed, ?_⟩
      by_contra other
      rw [if_neg other] at named
      cases named
  · cases reads

/-- The tree that is taken up is that of the report. -/
theorem tree_of_takeTreeReport {project : Project} {answer : Except ProcessError String}
    {view : TreeView} (takes : (project.takeTreeReport answer).2 = .ok view) :
    (project.takeTreeReport answer).1.tree = some view ∧
      Report.Forest.parse view.text = .ok view.forest := by
  cases answer with
  | error error => cases takes
  | ok text =>
    simp only [Project.takeTreeReport, Project.applyTreeReport] at takes ⊢
    split at takes
    · next forest parsed =>
      cases takes
      exact ⟨rfl, parsed⟩
    · cases takes

/-- What is loaded is a descriptor whose root is a project, and the forest of some report. -/
structure Reads (loaded : Loaded) : Prop where
  descriptor : ∃ tree, Tree.parse loaded.document.text = .ok tree ∧
    tree.root.name? = some "project"
  report : ∃ report, Report.Forest.parse report = .ok loaded.forest

theorem reads_of_load {runner : Runner} {pom : Path} {files after : FileTree} {loaded : Loaded}
    (loads : (load runner pom).outcome files = (.ok loaded, after)) : Reads loaded := by
  rw [load] at loads
  obtain ⟨tree, _, -, loads⟩ := exists_of_outcome_bind loads
  obtain ⟨text, _, -, loads⟩ := exists_of_outcome_bind loads
  obtain ⟨path, _, -, loads⟩ := exists_of_outcome_bind loads
  simp only at loads
  obtain ⟨_, _, parses, loads⟩ := exists_of_outcome_bind loads
  obtain ⟨_, _, -, loads⟩ := exists_of_outcome_bind loads
  obtain ⟨view, _, refreshes, loads⟩ := exists_of_outcome_bind loads
  cases loads
  obtain ⟨isTree, parsed⟩ := tree_of_takeTreeReport (eq_ok_of_orFail refreshes)
  refine ⟨exists_of_parseDeclared (eq_ok_of_orFail parses), view.text, ?_⟩
  rw [Loaded.forest, isTree]
  exact parsed

/-! ### What excluding comes to -/

theorem projectElement_of_reads {loaded : Loaded} {tree : Tree} (reads : Reads loaded)
    (parsed : Tree.parse loaded.document.text = .ok tree)
    (one : (tree.places.filter fun place => place.node.name? == some "project").length = 1) :
    Remedy.projectElement loaded.document = .ok tree.root := by
  obtain ⟨tree', parsed', named⟩ := reads.descriptor
  obtain rfl := Except.ok.inj (parsed.symm.trans parsed')
  simp [Remedy.projectElement, parsed, one, named, pure, Except.pure]

/-- The text in which an occurrence is excluded. It is empty if nothing is to be done for that. -/
def Excluded (loaded : Loaded) (style : Remedy.Style) (index : Nat) (text : String) : Prop :=
  Remedy.exclude loaded.document loaded.forest index style = .ok none ∧ text = "" ∨
    ∃ set, Remedy.exclude loaded.document loaded.forest index style = .ok (some set) ∧
      set.applyTo loaded.document.text = .ok text

/-- What excluding an artifact comes to. -/
structure Commits (loaded : Loaded) (style : Remedy.Style) (project : Markup.Node)
    (key : ArtifactKey) (result : Except CommandError String) : Prop where
  /-- If the preferred occurrence was pulled in by a declared dependency, it is excluded. -/
  excludes : ∀ index node root, loaded.forest.Prefers key index node → node.parent.isSome →
    loaded.forest.nodes[node.root]? = some root → Remedy.Declared project root.entry.key →
    ∃ text, result = .ok text ∧ Excluded loaded style index text
  /-- If the dependency is not declared, it is missed. -/
  refuses : ∀ index node root, loaded.forest.Prefers key index node → node.parent.isSome →
    loaded.forest.nodes[node.root]? = some root → ¬ Remedy.Declared project root.entry.key →
    result = .error (.remedy (.notDeclared root.entry.key))
  /-- A direct dependency is in the way only if all occurrences are, or if it lost to another
  version. -/
  direct : ∀ found, result = .error (.remedy (.directDependency found)) →
    (∀ index node, loaded.forest.Occurs key index node → node.parent = none) ∨
      ∃ index node, loaded.forest.Occurs key index node ∧ node.entry.isConflict = true ∧
        node.parent = none
  /-- A declaration is missed only above the preferred occurrence. -/
  undeclared : ∀ missing, result = .error (.remedy (.notDeclared missing)) →
    ∃ index node root, loaded.forest.Prefers key index node ∧ node.parent.isSome ∧
      loaded.forest.nodes[node.root]? = some root ∧ root.entry.key = missing ∧
      ¬ Remedy.Declared project missing
  /-- Nothing else is in the way of an artifact that occurs. -/
  fails : ∀ error, result = .error error →
    error = .notInTree key ∧ (∀ index node, ¬ loaded.forest.Occurs key index node) ∨
      error = .remedy (.directDependency key) ∨ ∃ missing, error = .remedy (.notDeclared missing)

namespace Commits

section

variable {loaded : Loaded} {style : Remedy.Style} {project : Markup.Node} {key : ArtifactKey}

theorem of_absent (absent : ∀ index node, ¬ loaded.forest.Occurs key index node) :
    Commits loaded style project key (.error (.notInTree key)) where
  excludes index node _ prefers := absurd prefers.occurs (absent index node)
  refuses index node _ prefers := absurd prefers.occurs (absent index node)
  direct _ same := by cases same
  undeclared _ same := by cases same
  fails _ same := by
    cases same
    exact Or.inl ⟨rfl, absent⟩

variable {index : Nat} {node root : Report.Node} (prefers : loaded.forest.Prefers key index node)

include prefers

theorem of_direct (noParent : node.parent = none) :
    Commits loaded style project key (.error (.remedy (.directDependency key))) := by
  have notPulledIn {other : Nat} {found : Report.Node}
      (alsoPrefers : loaded.forest.Prefers key other found) : ¬ found.parent.isSome := by
    obtain ⟨-, rfl⟩ := unique_of_prefers prefers alsoPrefers
    rw [noParent]
    exact Bool.false_ne_true
  refine ⟨fun _ _ _ alsoPrefers pulledIn => absurd pulledIn (notPulledIn alsoPrefers),
    fun _ _ _ alsoPrefers pulledIn => absurd pulledIn (notPulledIn alsoPrefers), fun _ _ => ?_,
    fun _ same => (by cases same), fun _ same => Or.inr (Or.inl (Except.error.inj same).symm)⟩
  cases prefers with
  | conflict first => exact Or.inr ⟨index, node, first.occurs, first.ofSort, noParent⟩
  | pulledIn _ first =>
    have hasParent := first.ofSort
    rw [noParent] at hasParent
    cases hasParent
  | direct _ allDirect _ =>
    exact Or.inl fun other found occurs =>
      Option.not_isSome_iff_eq_none.mp (by simp [allDirect other found occurs])

variable (pulledIn : node.parent.isSome) (isRoot : loaded.forest.nodes[node.root]? = some root)

include isRoot

theorem of_declared (declared : Remedy.Declared project root.entry.key) {text : String}
    (excluded : Excluded loaded style index text) :
    Commits loaded style project key (.ok text) where
  excludes other found _ alsoPrefers _ _ _ := by
    obtain ⟨rfl, -⟩ := unique_of_prefers prefers alsoPrefers
    exact ⟨text, rfl, excluded⟩
  refuses other found above alsoPrefers _ isAbove undeclared := by
    obtain ⟨-, rfl⟩ := unique_of_prefers prefers alsoPrefers
    obtain rfl := Option.some.inj (isRoot.symm.trans isAbove)
    exact absurd declared undeclared
  direct _ same := by cases same
  undeclared _ same := by cases same
  fails _ same := by cases same

include pulledIn

theorem of_undeclared (undeclared : ¬ Remedy.Declared project root.entry.key) :
    Commits loaded style project key (.error (.remedy (.notDeclared root.entry.key))) where
  excludes other found above alsoPrefers _ isAbove declared := by
    obtain ⟨-, rfl⟩ := unique_of_prefers prefers alsoPrefers
    obtain rfl := Option.some.inj (isRoot.symm.trans isAbove)
    exact absurd declared undeclared
  refuses other found above alsoPrefers _ isAbove _ := by
    obtain ⟨-, rfl⟩ := unique_of_prefers prefers alsoPrefers
    obtain rfl := Option.some.inj (isRoot.symm.trans isAbove)
    rfl
  direct _ same := by cases same
  undeclared _ same := by
    cases same
    exact ⟨index, node, root, prefers, pulledIn, isRoot, rfl, undeclared⟩
  fails _ same := by
    cases same
    exact Or.inr (Or.inr ⟨_, rfl⟩)

end

end Commits

section

variable {runner : Runner} (settings : Settings) {pom : Path} {files after : FileTree}
  {loaded : Loaded} (loads : (load runner pom).outcome files = (.ok loaded, after)) {tree : Tree}
  (parsed : Tree.parse loaded.document.text = .ok tree)
  (noMark : ¬ Remedy.BeginsWithMark loaded.document.text)
  (one : (tree.places.filter fun place => place.node.name? == some "project").length = 1)
  {key : ArtifactKey}

include loads

theorem result_exclude_of_none (none : occurrenceToExclude? loaded.forest key = none) :
    ((exclude runner settings pom key false).outcome files).1 = .error (.notInTree key) := by
  rw [exclude, outcome_bind, loads]
  simp only [none]
  rfl

theorem result_exclude {index : Nat}
    (taken : occurrenceToExclude? loaded.forest key = some index) :
    ((exclude runner settings pom key false).outcome files).1 =
      ((emitRemedy loaded.document (Remedy.exclude loaded.document loaded.forest index
        (styleOf settings.edit)) false).outcome after).1 := by
  rw [exclude, outcome_bind, loads]
  simp only [taken]

include parsed noMark one

/-- The preferred occurrence decides. -/
theorem result_of_prefers {index : Nat} {node : Report.Node}
    (prefers : loaded.forest.Prefers key index node) :
    let result := ((exclude runner settings pom key false).outcome files).1
    node.parent = none ∧ result = .error (.remedy (.directDependency key)) ∨
      ∃ root, node.parent.isSome ∧ loaded.forest.nodes[node.root]? = some root ∧
        (Remedy.Declared tree.root root.entry.key ∧ (∃ text, result = .ok text ∧
            Excluded loaded (styleOf settings.edit) index text) ∨
          ¬ Remedy.Declared tree.root root.entry.key ∧
            result = .error (.remedy (.notDeclared root.entry.key))) := by
  have reads := reads_of_load loads
  obtain ⟨report, isReport⟩ := reads.report
  have consistent := Report.Forest.consistent_of_parse isReport
  have isProject := projectElement_of_reads reads parsed one
  have result := result_exclude settings loads
    (occurrenceToExclude?_eq_some_iff.mpr ⟨node, prefers⟩)
  obtain ⟨isNode, rfl⟩ := prefers.occurs
  have direct := consistent.root_eq_iff isNode
  simp only [result]
  by_cases own : node.root = index
  · refine Or.inl ⟨direct.mp own, ?_⟩
    rw [Remedy.exclude_direct isNode _ own]
    rfl
  · obtain ⟨-, root, isRoot, -⟩ := consistent.root index node isNode
    refine Or.inr ⟨root, Option.isSome_iff_ne_none.mpr (mt direct.mpr own), isRoot, ?_⟩
    by_cases declared : Remedy.Declared tree.root root.entry.key
    · refine Or.inl ⟨declared, ?_⟩
      rcases Remedy.exists_exclude parsed (Remedy.withoutMark_eq noMark) isNode own isRoot isProject
        declared (styleOf settings.edit) with nothing | ⟨set, text, computed, applied⟩
      · exact ⟨"", by rw [nothing]; rfl, Or.inl ⟨nothing, rfl⟩⟩
      · refine ⟨text, ?_, Or.inr ⟨set, computed, applied⟩⟩
        rw [computed]
        show ((orFail .edit (set.applyTo loaded.document.text)).outcome after).1 = .ok text
        rw [applied]
        rfl
    · refine Or.inr ⟨declared, ?_⟩
      rw [Remedy.exclude_undeclared isNode _ own isRoot isProject declared]
      rfl

end

/-- The command excludes the preferred occurrence of an artifact if it can. In a descriptor without
a byte order mark and with one project, it fails only if no occurrence was pulled in, if it prefers
one that was not, or if the dependency that pulled in the preferred one is not declared. -/
theorem exclude_commits (runner : Runner) (settings : Settings) (pom : Path) (key : ArtifactKey)
    (files after : FileTree) (loaded : Loaded)
    (loads : (load runner pom).outcome files = (.ok loaded, after)) (tree : Tree)
    (parsed : Tree.parse loaded.document.text = .ok tree)
    (noMark : ¬ Remedy.BeginsWithMark loaded.document.text)
    (one : (tree.places.filter fun place => place.node.name? == some "project").length = 1) :
    Commits loaded (styleOf settings.edit) tree.root key
      ((exclude runner settings pom key false).outcome files).1 := by
  cases taken : occurrenceToExclude? loaded.forest key with
  | none =>
    rw [result_exclude_of_none settings loads taken]
    exact .of_absent (not_occurs_of_occurrenceToExclude? taken)
  | some index =>
    obtain ⟨node, prefers⟩ := occurrenceToExclude?_eq_some_iff.mp taken
    rcases result_of_prefers settings loads parsed noMark one prefers with
      ⟨noParent, fails⟩ |
      ⟨root, pulledIn, isRoot, ⟨declared, text, shows, excluded⟩ | ⟨undeclared, fails⟩⟩
    · rw [fails]
      exact .of_direct prefers noParent
    · rw [shows]
      exact .of_declared prefers isRoot declared excluded
    · rw [fails]
      exact .of_undeclared prefers pulledIn isRoot undeclared

/-! ### One declaration of two -/

/-- A project that declares one dependency, next to a saved report. -/
def declaresOne (report : String) : FileTree where
  entries := [(["p"], .folder), (["p", "pom.xml"], .file Remedy.ownDeclaration.text false),
    (["p", "tree.txt"], .file report false)]
  current := ⟨"/p"⟩

/-- An artifact that a declared dependency pulls in, and that lost below an inherited one. -/
def lostBelowInherited : String :=
  "g:p:jar:1\n+- g:a:jar:1:compile\n|  \\- g:x:jar:1:compile\n\\- g:b:jar:1:compile\n" ++
    "   \\- (g:x:jar:2:compile - omitted for conflict with 1)\n"

/-- An artifact that an inherited dependency pulls in, and that lost below a declared one. -/
def lostBelowDeclared : String :=
  "g:p:jar:1\n+- g:b:jar:1:compile\n|  \\- g:x:jar:1:compile\n\\- g:a:jar:1:compile\n" ++
    "   \\- (g:x:jar:2:compile - omitted for conflict with 1)\n"

/-- The tool that reports what was saved. -/
def savedTool (report : String) : Runner :=
  noTool.withSavedReport (declaresOne report) ⟨"tree.txt"⟩

theorem exists_ownDeclaration : ∃ tree, Tree.parse Remedy.ownDeclaration.text = .ok tree ∧
    (tree.places.filter fun place => place.node.name? == some "project").length = 1 ∧
    Remedy.Declared tree.root ⟨"g", "a"⟩ ∧ ¬ Remedy.Declared tree.root ⟨"g", "b"⟩ := by
  have computed : (Tree.parse Remedy.ownDeclaration.text).toOption.map (fun tree =>
      ((tree.places.filter fun place => place.node.name? == some "project").length,
        (Remedy.directDependency? tree.root ⟨"g", "a"⟩).isSome,
        (Remedy.directDependency? tree.root ⟨"g", "b"⟩).isSome)) = some (1, true, false) := by
    decide +kernel
  obtain ⟨tree, parsed, same⟩ := Option.map_eq_some_iff.mp computed
  simp only [Prod.mk.injEq] at same
  obtain ⟨one, declared, undeclared⟩ := same
  refine ⟨tree, toOption_eq_some_iff.mp parsed, one,
    Remedy.isSome_directDependency?_iff.mp declared, fun other => ?_⟩
  rw [Remedy.isSome_directDependency?_iff.mpr other] at undeclared
  cases undeclared

/-- What is loaded of the descriptor. -/
theorem loads_declaresOne {report : String} {loaded : Loaded}
    (isLoaded : ((load (savedTool report) ⟨"pom.xml"⟩).outcome (declaresOne report)).1.toOption =
      some loaded)
    (read : ((declaresOne report).read ⟨"pom.xml"⟩).toOption = some Remedy.ownDeclaration.text) :
    (load (savedTool report) ⟨"pom.xml"⟩).outcome (declaresOne report) =
        (.ok loaded, declaresOne report) ∧
      loaded.document.text = Remedy.ownDeclaration.text := by
  have looks := @looks_load (declaresOne report) noTool ⟨"tree.txt"⟩ ⟨"pom.xml"⟩
  have gives := toOption_eq_some_iff.mp isLoaded
  have same := (looks.2 loaded gives).2.symm.trans (toOption_eq_some_iff.mp read)
  exact ⟨Prod.ext gives looks.1, Except.ok.inj same⟩

/-- An occurrence that a dependency pulled in. -/
theorem exists_pulledIn {forest : Report.Forest} {index : Nat} {key above : ArtifactKey}
    (pulledIn : (forest.nodes[index]?.bind fun node => forest.nodes[node.root]?.map fun root =>
      (node.entry.key, node.parent.isSome, root.entry.key)) = some (key, true, above)) :
    ∃ node root, forest.Occurs key index node ∧ node.parent.isSome = true ∧
      forest.nodes[node.root]? = some root ∧ root.entry.key = above := by
  obtain ⟨node, isNode, pulledIn⟩ := Option.bind_eq_some_iff.mp pulledIn
  obtain ⟨root, isRoot, same⟩ := Option.map_eq_some_iff.mp pulledIn
  simp only [Prod.mk.injEq] at same
  exact ⟨node, root, ⟨isNode, same.1⟩, same.2.1, isRoot, same.2.2⟩

/-- The occurrence that lost is excluded, although it is not the first. -/
theorem exclude_commits_lostBelowDeclared :
    ∃ text, ((exclude (savedTool lostBelowDeclared) Settings.standard ⟨"pom.xml"⟩ ⟨"g", "x"⟩
      false).outcome (declaresOne lostBelowDeclared)).1 = .ok text := by
  have computed : ((load (savedTool lostBelowDeclared) ⟨"pom.xml"⟩).outcome
      (declaresOne lostBelowDeclared)).1.toOption.map (fun loaded =>
        (occurrenceToExclude? loaded.forest ⟨"g", "x"⟩,
          loaded.forest.nodes[3]?.bind fun node => loaded.forest.nodes[node.root]?.map fun root =>
            (node.entry.key, node.parent.isSome, root.entry.key))) =
      some (some 3, some (⟨"g", "x"⟩, true, ⟨"g", "a"⟩)) := by
    decide +kernel
  obtain ⟨loaded, isLoaded, same⟩ := Option.map_eq_some_iff.mp computed
  obtain ⟨taken, lost⟩ := Prod.mk.inj same
  obtain ⟨loads, sameText⟩ := loads_declaresOne isLoaded (by decide +kernel)
  obtain ⟨tree, parsed, one, declared, -⟩ := exists_ownDeclaration
  obtain ⟨node, root, occurs, pulledIn, isRoot, isKey⟩ := exists_pulledIn lost
  obtain ⟨found, prefers⟩ := occurrenceToExclude?_eq_some_iff.mp taken
  obtain rfl := Option.some.inj (prefers.occurs.1.symm.trans occurs.1)
  have commits := exclude_commits (savedTool lostBelowDeclared) Settings.standard ⟨"pom.xml"⟩
    ⟨"g", "x"⟩ (declaresOne lostBelowDeclared) (declaresOne lostBelowDeclared) loaded loads tree
    (by rw [sameText]; exact parsed) (by rw [sameText]; exact Remedy.noMark_ownDeclaration) one
  obtain ⟨text, shows, -⟩ := commits.excludes 3 found root prefers pulledIn isRoot
    (by rw [isKey]; exact declared)
  exact ⟨text, shows⟩

/-- The occurrence that lost cannot be excluded. That the declared dependency pulls the artifact in
as well is of no help. -/
theorem exclude_refuses_lostBelowInherited :
    ∃ loaded tree node root,
      (load (savedTool lostBelowInherited) ⟨"pom.xml"⟩).outcome (declaresOne lostBelowInherited) =
        (.ok loaded, declaresOne lostBelowInherited) ∧
      Tree.parse loaded.document.text = .ok tree ∧
      ¬ Remedy.BeginsWithMark loaded.document.text ∧
      (tree.places.filter fun place => place.node.name? == some "project").length = 1 ∧
      loaded.forest.Occurs ⟨"g", "x"⟩ 1 node ∧ node.parent.isSome = true ∧
      loaded.forest.nodes[node.root]? = some root ∧
      Remedy.Declared tree.root root.entry.key ∧
      ((exclude (savedTool lostBelowInherited) Settings.standard ⟨"pom.xml"⟩ ⟨"g", "x"⟩
        false).outcome (declaresOne lostBelowInherited)).1 =
        .error (.remedy (.notDeclared ⟨"g", "b"⟩)) := by
  have computed : ((load (savedTool lostBelowInherited) ⟨"pom.xml"⟩).outcome
      (declaresOne lostBelowInherited)).1.toOption.map (fun loaded =>
        (occurrenceToExclude? loaded.forest ⟨"g", "x"⟩, [1, 3].map fun index =>
          loaded.forest.nodes[index]?.bind fun node =>
            loaded.forest.nodes[node.root]?.map fun root =>
              (node.entry.key, node.parent.isSome, root.entry.key))) =
      some (some 3,
        [some (⟨"g", "x"⟩, true, ⟨"g", "a"⟩), some (⟨"g", "x"⟩, true, ⟨"g", "b"⟩)]) := by
    decide +kernel
  obtain ⟨loaded, isLoaded, same⟩ := Option.map_eq_some_iff.mp computed
  simp only [List.map_cons, List.map_nil, Prod.mk.injEq, List.cons.injEq, and_true] at same
  obtain ⟨taken, early, lost⟩ := same
  obtain ⟨loads, sameText⟩ := loads_declaresOne isLoaded (by decide +kernel)
  obtain ⟨tree, parsed, one, declared, undeclared⟩ := exists_ownDeclaration
  rw [← sameText] at parsed
  have noMark : ¬ Remedy.BeginsWithMark loaded.document.text := by
    rw [sameText]
    exact Remedy.noMark_ownDeclaration
  obtain ⟨node, root, occurs, pulledIn, isRoot, isKey⟩ := exists_pulledIn early
  refine ⟨loaded, tree, node, root, loads, parsed, noMark, one, occurs, pulledIn, isRoot,
    by rw [isKey]; exact declared, ?_⟩
  -- The command commits to the other occurrence, which lost.
  obtain ⟨other, above, occursOther, pulledInOther, isAbove, keyAbove⟩ := exists_pulledIn lost
  obtain ⟨found, prefers⟩ := occurrenceToExclude?_eq_some_iff.mp taken
  obtain rfl := Option.some.inj (prefers.occurs.1.symm.trans occursOther.1)
  rcases result_of_prefers Settings.standard loads parsed noMark one prefers with
    ⟨noParent, -⟩ | ⟨root', -, isRoot', ⟨isDeclared, -⟩ | ⟨-, fails⟩⟩
  · rw [noParent] at pulledInOther
    cases pulledInOther
  · obtain rfl := Option.some.inj (isAbove.symm.trans isRoot')
    exact absurd (keyAbove ▸ isDeclared) undeclared
  · obtain rfl := Option.some.inj (isAbove.symm.trans isRoot')
    rw [fails, keyAbove]

end CommandLine

end PomLens
