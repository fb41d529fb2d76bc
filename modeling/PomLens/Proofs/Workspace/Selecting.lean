/-
This file says whose descriptor a project takes for its merged one.

The build tool may answer for several projects at once. Among their elements the one is taken whose
artifact has the project's name (`Selects`), and a project's name need not be that of its artifact:
a descriptor may declare another one to show. So a project takes its own element if and only if
the name that it declares, with its placeholders replaced, is that of its artifact, and always if
it declares none (`own_of_computeMerged`).
-/

import PomLens.Proofs.Outcome
import PomLens.Proofs.Text.Cutting
import PomLens.Workspace.Inheritance

namespace PomLens

open Markup (Node)

/-! ### Names -/

theorem pieces_eq_singleton {text : List Char} (absent : ¬ placeholderStart <:+: text) :
    pieces text = [.plain text] := by
  rw [pieces]
  split
  · rfl
  · next found =>
    rw [Text.splitAtText?_eq_none absent] at found
    cases found

namespace Project

variable {project : Project} {workspace : Workspace} {files : FileTree} {declared : Descriptor}

/-- Without placeholders there is nothing to fill in. -/
theorem fill_of_absent {raw : String} (absent : ¬ placeholderStart <:+: raw.toList) :
    project.fill workspace files raw = raw := by
  rw [fill, pieces_eq_singleton absent, List.flatMap_singleton, Piece.fill, String.ofList_toList]

/-- A project is looked for under the name that it declares, or under its artifact's. -/
theorem mergedName_eq (isDeclared : project.declared = some declared) {artifact : String}
    (isArtifact : declared.artifact = some artifact) :
    project.mergedName workspace files =
      (declared.name.map (project.fill workspace files)).getD artifact := by
  rw [mergedName, displayName?, isDeclared, Option.bind_eq_bind, Option.bind_some]
  cases declared.name with
  | none => simp [isArtifact]
  | some raw => rfl

end Project

namespace Descriptor

/-! ### Selecting -/

/-- The descriptor that a name selects: that of the first element whose artifact has the name, or
one that says nothing. -/
inductive Selects (elements : List Node) (name : String) : Descriptor → Prop
  | first {before after : List Node} {chosen : Node} (stands : elements = before ++ chosen :: after)
    (named : chosen.childText? "artifactId" = some name)
    (others : ∀ other ∈ before, other.childText? "artifactId" ≠ some name) :
    Selects elements name (ofElement chosen)
  | nothing (others : ∀ other ∈ elements, other.childText? "artifactId" ≠ some name) :
    Selects elements name empty

theorem exists_parseMerged {text : String} {root : Node} (reads : rootElement text = .ok root)
    (several : root.name? = some "projects") (name : String) :
    ∃ descriptor, parseMerged text name = .ok descriptor ∧
      Selects (root.elementsNamed "project") name descriptor := by
  have parsed : parseMerged text name = .ok ((((root.elementsNamed "project").find? fun project =>
      project.childText? "artifactId" == some name).map ofElement).getD empty) := by
    rw [parseMerged, reads]
    simp only [bind, Except.bind, several]
    rfl
  refine ⟨_, parsed, ?_⟩
  cases found : (root.elementsNamed "project").find? fun project =>
      project.childText? "artifactId" == some name with
  | none => exact .nothing (by simpa using List.find?_eq_none.mp found)
  | some chosen =>
    obtain ⟨named, before, after, stands, others⟩ := List.find?_eq_some_iff_append.mp found
    exact .first stands (beq_iff_eq.mp named) (by simpa using others)

/-- Exactly one element has this artifact, and a name selects its descriptor if and only if it is
the artifact's. -/
theorem Selects.eq_own_iff {elements : List Node} {name artifact : String} {own : Node}
    {descriptor : Descriptor} (selects : Selects elements name descriptor)
    (only : (elements.filter fun element => element.childText? "artifactId" = some artifact) = [own]) :
    descriptor = ofElement own ↔ name = artifact := by
  have isOwn : own ∈ elements ∧ own.childText? "artifactId" = some artifact := by
    have member : own ∈ elements.filter fun element =>
      element.childText? "artifactId" = some artifact := only ▸ List.mem_singleton_self own
    simpa using member
  have ownArtifact : (ofElement own).artifact = some artifact := isOwn.2
  cases selects with
  | @first before after chosen stands named others =>
    constructor
    · intro same
      have chosenArtifact : (ofElement chosen).artifact = some name := named
      rw [same, ownArtifact] at chosenArtifact
      exact (Option.some.inj chosenArtifact).symm
    · rintro rfl
      have isChosen : chosen ∈ elements.filter fun element =>
          element.childText? "artifactId" = some name := by
        simp [stands, named]
      rw [only, List.mem_singleton] at isChosen
      rw [isChosen]
  | nothing others =>
    constructor
    · intro same
      have noArtifact : (ofElement own).artifact = none := by rw [← same]; rfl
      rw [ownArtifact] at noArtifact
      cases noArtifact
    · rintro rfl
      exact absurd isOwn.2 (others own isOwn.1)

end Descriptor

/-! ### Whose descriptor is taken -/

namespace Project

variable {project : Project} {workspace : Workspace} {files : FileTree} {runner : Runner}
  {declared : Descriptor} {artifact text : String} {root own : Node}

theorem computeMerged_of_parseMerged {descriptor : Descriptor}
    (isDeclared : project.declared = some declared)
    (answered : (runner.mergedDescriptor project.path).text = .ok text)
    (parsed : Descriptor.parseMerged text (project.mergedName workspace files) = .ok descriptor) :
    project.computeMerged workspace files runner false =
      ({ project with merged := some ⟨text, descriptor⟩ }, .ok ⟨text, descriptor⟩) := by
  have request : project.requestMerged false = .ok none := by
    rw [requestMerged, isDeclared]
    rfl
  rw [computeMerged, request, answered]
  simp only [takeMerged, parsed]
  rfl

/-- Where the build tool answers for several projects, one of which has the project's artifact, a
merged view is stored. It is that one's descriptor if and only if the name of the project, with
its placeholders replaced, is its artifact's, which it is where no name is declared. -/
theorem own_of_computeMerged (isDeclared : project.declared = some declared)
    (isArtifact : declared.artifact = some artifact)
    (answered : (runner.mergedDescriptor project.path).text = .ok text)
    (reads : Descriptor.rootElement text = .ok root) (several : root.name? = some "projects")
    (only : ((root.elementsNamed "project").filter fun element =>
      element.childText? "artifactId" = some artifact) = [own]) :
    ∃ descriptor,
      project.computeMerged workspace files runner false =
          ({ project with merged := some ⟨text, descriptor⟩ }, .ok ⟨text, descriptor⟩) ∧
        Descriptor.Selects (root.elementsNamed "project")
          ((declared.name.map (project.fill workspace files)).getD artifact) descriptor ∧
        (descriptor = Descriptor.ofElement own ↔
          (declared.name.map (project.fill workspace files)).getD artifact = artifact) ∧
        (declared.name = none → descriptor = Descriptor.ofElement own) ∧
        ∀ raw, declared.name = some raw → ¬ placeholderStart <:+: raw.toList →
          (descriptor = Descriptor.ofElement own ↔ raw = artifact) := by
  have name : project.mergedName workspace files = _ := mergedName_eq isDeclared isArtifact
  obtain ⟨descriptor, parsed, selects⟩ :=
    Descriptor.exists_parseMerged reads several (project.mergedName workspace files)
  rw [name] at selects
  have iffName := selects.eq_own_iff only
  refine ⟨descriptor, computeMerged_of_parseMerged isDeclared answered parsed, selects, iffName,
    ?_, ?_⟩
  · intro unnamed
    rw [iffName, unnamed]
    rfl
  · intro raw named absent
    rw [iffName, named, Option.map_some, fill_of_absent absent, Option.getD_some]

/-- A project whose descriptor has this text. -/
def ofText (text : String) : Project :=
  ((new ⟨"/ws/pom.xml"⟩).parseDeclared text).1

/-- What the build tool answers for an application and a library. -/
def twoMerged : String :=
  "<projects><project><artifactId>app</artifactId></project>" ++
    "<project><artifactId>lib</artifactId></project></projects>"

theorem exists_ownElement :
    ∃ root own, Descriptor.rootElement twoMerged = .ok root ∧ root.name? = some "projects" ∧
      ((root.elementsNamed "project").filter fun element =>
        element.childText? "artifactId" = some "app") = [own] := by
  have seen : (Descriptor.rootElement twoMerged).toOption.map (fun root => (root.name?,
      ((root.elementsNamed "project").filter fun element =>
        element.childText? "artifactId" = some "app").length)) = some (some "projects", 1) := by
    decide +kernel
  obtain ⟨root, isRoot, facts⟩ := Option.map_eq_some_iff.mp seen
  obtain ⟨several, single⟩ := Prod.mk.inj facts
  obtain ⟨own, only⟩ := List.length_eq_one_iff.mp single
  exact ⟨root, own, toOption_eq_some_iff.mp isRoot, several, only⟩

/-- A project that declares the name of its artifact by a placeholder. -/
def placeholderNamed : Project :=
  ofText "<project><artifactId>app</artifactId><name>$\x7bproject.artifactId\x7d</name></project>"

theorem exists_placeholderNamed :
    ∃ declared, placeholderNamed.declared = some declared ∧ declared.artifact = some "app" ∧
      placeholderNamed.mergedName .empty .empty = "app" := by
  have seen : placeholderNamed.declared.map Descriptor.artifact = some (some "app") ∧
      placeholderNamed.mergedName .empty .empty = "app" := by
    decide +kernel
  obtain ⟨declared, isDeclared, isArtifact⟩ := Option.map_eq_some_iff.mp seen.1
  exact ⟨declared, isDeclared, isArtifact, seen.2⟩

/-- Its own descriptor is taken. -/
theorem own_of_computeMerged_placeholder :
    ∃ declared root own,
      placeholderNamed.declared = some declared ∧ declared.artifact = some "app" ∧
      Descriptor.rootElement twoMerged = .ok root ∧ root.name? = some "projects" ∧
      ((root.elementsNamed "project").filter fun element =>
        element.childText? "artifactId" = some "app") = [own] ∧
      placeholderNamed.computeMerged .empty .empty (.always ⟨.ok twoMerged, .empty⟩) false =
        ({ placeholderNamed with merged := some ⟨twoMerged, .ofElement own⟩ },
          .ok ⟨twoMerged, .ofElement own⟩) := by
  obtain ⟨declared, isDeclared, isArtifact, name⟩ := exists_placeholderNamed
  obtain ⟨root, own, reads, several, only⟩ := exists_ownElement
  have answered : ((Runner.always ⟨.ok twoMerged, .empty⟩).mergedDescriptor
      placeholderNamed.path).text = .ok twoMerged := rfl
  obtain ⟨descriptor, computed, -, iffName, -⟩ :=
    own_of_computeMerged isDeclared isArtifact answered reads several only
  rw [mergedName_eq isDeclared isArtifact] at name
  have isOwn : descriptor = .ofElement own := iffName.mpr name
  exact ⟨declared, root, own, isDeclared, isArtifact, reads, several, only, isOwn ▸ computed⟩

/-- A project that declares a name of its own. -/
def otherNamed : Project :=
  ofText "<project><artifactId>app</artifactId><name>My App</name></project>"

/-- A project with another name than its artifact's gets an empty merged view, although exactly one
of the merged projects has its artifact. -/
theorem empty_of_otherNamed :
    otherNamed.artifact? = some "app" ∧
      (∃ root own, Descriptor.rootElement twoMerged = .ok root ∧ root.name? = some "projects" ∧
        ((root.elementsNamed "project").filter fun element =>
          element.childText? "artifactId" = some "app") = [own] ∧
        Descriptor.ofElement own ≠ .empty) ∧
      otherNamed.computeMerged .empty .empty (.always ⟨.ok twoMerged, .empty⟩) false =
        ({ otherNamed with merged := some ⟨twoMerged, .empty⟩ }, .ok ⟨twoMerged, .empty⟩) := by
  have seen : otherNamed.artifact? = some "app" ∧
      otherNamed.mergedName .empty .empty = "My App" := by
    decide +kernel
  refine ⟨seen.1, ?_, ?_⟩
  · obtain ⟨root, own, reads, several, only⟩ := exists_ownElement
    refine ⟨root, own, reads, several, only, fun isEmpty => ?_⟩
    have member : own ∈ (root.elementsNamed "project").filter fun element =>
        element.childText? "artifactId" = some "app" := only ▸ List.mem_singleton_self own
    have isArtifact : (Descriptor.ofElement own).artifact = some "app" :=
      of_decide_eq_true (List.mem_filter.mp member).2
    rw [isEmpty] at isArtifact
    cases isArtifact
  · obtain ⟨declared, isDeclared, -⟩ := Option.bind_eq_some_iff.mp seen.1
    refine computeMerged_of_parseMerged isDeclared rfl ?_
    rw [seen.2]
    exact toOption_eq_some_iff.mp (by decide +kernel)

end Project

end PomLens
