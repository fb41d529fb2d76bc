/-
This file says which modules discovery links, and to which projects.

What is registered at a path afterwards is what was registered there before, else what was read
from disk, and it has its link from before, else a link to the first project that lists it
(`get?_takeIn`). But only projects that were not registered are asked for their modules: the
modules of one that was registered already stay as they were, however they came to be known. So
a module is linked if and only if it was before, or a project that discovery has registered lists
it (`links_of_discover`).
-/

import PomLens.Proofs.Outcome
import PomLens.Proofs.Workspace.Registered
import PomLens.Workspace.Discovery

namespace PomLens

namespace Project

/-! ### Projects from disk and links -/

theorem path_parseDeclared (project : Project) (text : String) :
    (project.parseDeclared text).1.path = project.path := by
  unfold parseDeclared
  split <;> rfl

theorem parentLink_parseDeclared (project : Project) (text : String) :
    (project.parseDeclared text).1.parentLink = project.parentLink := by
  unfold parseDeclared
  split <;> rfl

/-- The project at a path as it is read for the first time. -/
def fromDisk (files : FileTree) (path : Path) : Project :=
  ((new path).reload files).1

@[simp] theorem path_fromDisk (files : FileTree) (path : Path) :
    (fromDisk files path).path = path.normalize := by
  unfold fromDisk reload
  split
  · exact path_parseDeclared _ _
  · rfl

@[simp] theorem parentLink_fromDisk (files : FileTree) (path : Path) :
    (fromDisk files path).parentLink = none := by
  unfold fromDisk reload
  split
  · exact parentLink_parseDeclared _ _
  · rfl

theorem fromDisk_congr (files : FileTree) {path other : Path}
    (same : path.normalize = other.normalize) : fromDisk files path = fromDisk files other := by
  rw [fromDisk, fromDisk, new, new, same]

/-- The project with a link, unless it has one. -/
def withLink (project : Project) (link : Option Path) : Project :=
  { project with parentLink := project.parentLink.or link }

@[simp] theorem path_withLink (project : Project) (link : Option Path) :
    (project.withLink link).path = project.path := rfl

@[simp] theorem withLink_none (project : Project) : project.withLink none = project := by
  rw [withLink, Option.or_none]

theorem withLink_withLink (project : Project) (first second : Option Path) :
    (project.withLink first).withLink second = project.withLink (first.or second) := by
  rw [withLink, withLink, withLink, Option.or_assoc]

theorem linkParent_eq (project : Project) (parent : Path) :
    (project.linkParent parent).1 = project.withLink (some parent) := by
  unfold linkParent withLink
  split
  · next linked => rw [linked, Option.some_or, ← linked]
  · next unlinked => rw [unlinked, Option.none_or]

theorem normalize_of_mem_modules {project : Project} {files : FileTree} {path : Path}
    (member : path ∈ project.modules files) : path.normalize = path := by
  unfold modules at member
  split at member
  · cases member
  · obtain ⟨name, -, rfl⟩ := List.mem_map.mp member
    unfold descriptorIn
    split <;> exact Path.normalize_normalize _

end Project

/-! ### What is found -/

/-- The descriptors under a folder, as they come. -/
def descriptorsBelow (files : FileTree) (folder : Path) (settings : DiscoverySettings) :
    Except PatternError (List Path) := do
  let included ← readPattern settings.pattern
  let excluded ← settings.exclude.mapM readPattern
  let chosen := (files.filesBelow folder).filter fun path =>
    Glob.isMatch included path.text &&
      !excluded.any fun pattern => Glob.isMatch pattern path.text
  return chosen.map fun path => (folder.join path).normalize

theorem findDescriptors_eq (files : FileTree) (folder : Path) (settings : DiscoverySettings) :
    findDescriptors files folder settings =
      (descriptorsBelow files folder settings).map fun paths => paths.mergeSort Path.le := by
  rw [findDescriptors, descriptorsBelow]
  cases readPattern settings.pattern with
  | error failure => rfl
  | ok included => cases settings.exclude.mapM readPattern <;> rfl

theorem normalize_of_mem_found {files : FileTree} {folder : Path} {settings : DiscoverySettings}
    {found : List Path} (finds : findDescriptors files folder settings = .ok found) :
    ∀ path ∈ found, path.normalize = path := by
  obtain ⟨included, -, rest⟩ := exists_of_bind_eq_ok finds
  obtain ⟨excluded, -, sorted⟩ := exists_of_bind_eq_ok rest
  cases sorted
  intro path member
  obtain ⟨relative, -, rfl⟩ := List.mem_map.mp (List.mem_mergeSort.mp member)
  exact Path.normalize_normalize _

namespace Workspace

/-! ### What linking leaves -/

theorem get?_linkAll {paths : List Path} (normal : ∀ path ∈ paths, path.normalize = path)
    (workspace : Workspace) (parent path : Path) :
    (paths.foldl (fun workspace listed => workspace.update listed fun project =>
        (project.linkParent parent).1) workspace).get? path =
      (workspace.get? path).map fun project =>
        project.withLink (if path.normalize ∈ paths then some parent else none) := by
  induction paths generalizing workspace with
  | nil => simp
  | cons first rest inductionHypothesis =>
    obtain ⟨isNormal, areNormal⟩ := List.forall_mem_cons.mp normal
    rw [List.foldl_cons, inductionHypothesis areNormal,
      get?_update workspace fun project => by rw [project.linkParent_eq, Project.path_withLink]]
    simp only [isNormal, List.mem_cons, Project.linkParent_eq]
    by_cases here : first = path.normalize
    · simp [here, Function.comp_def, Project.withLink_withLink]
    · simp [here, Ne.symm here]

theorem get?_linkModules (workspace : Workspace) (files : FileTree) (lister : Project)
    (path : Path) :
    (workspace.linkModules files lister).get? path =
      (workspace.get? path).map fun project =>
        project.withLink (if path.normalize ∈ lister.modules files then some lister.path else none) :=
  get?_linkAll (fun _ => Project.normalize_of_mem_modules) workspace lister.path path

/-- Of several projects that list a module, the first becomes its parent. -/
theorem get?_linkModules_foldl (workspace : Workspace) (files : FileTree) (listers : List Project)
    (path : Path) :
    (listers.foldl (fun linked lister => linked.linkModules files lister) workspace).get? path =
      (workspace.get? path).map fun project => project.withLink
        ((listers.find? fun lister => path.normalize ∈ lister.modules files).map Project.path) := by
  induction listers generalizing workspace with
  | nil => simp
  | cons first rest inductionHypothesis =>
    rw [List.foldl_cons, inductionHypothesis, get?_linkModules, Option.map_map, List.find?_cons]
    by_cases lists : path.normalize ∈ first.modules files <;>
      simp [lists, Function.comp_def, Project.withLink_withLink]

theorem get?_insertAll (workspace : Workspace) (files : FileTree) (paths : List Path)
    (path : Path) :
    (workspace.insertAll (paths.map (Project.fromDisk files))).get? path =
      if path.normalize ∈ paths.map Path.normalize then some (.fromDisk files path)
      else workspace.get? path := by
  induction paths generalizing workspace with
  | nil => simp [insertAll]
  | cons first rest inductionHypothesis =>
    have step : workspace.insertAll ((first :: rest).map (Project.fromDisk files)) =
        (workspace.insert (.fromDisk files first)).1.insertAll
          (rest.map (Project.fromDisk files)) := rfl
    rw [step, inductionHypothesis, get?_insert, Project.path_fromDisk, List.map_cons]
    by_cases later : path.normalize ∈ rest.map Path.normalize
    · rw [if_pos later, if_pos (List.mem_cons_of_mem _ later)]
    · rw [if_neg later]
      by_cases here : first.normalize = path.normalize
      · rw [if_pos here, if_pos (here ▸ List.mem_cons_self), Project.fromDisk_congr files here]
      · have elsewhere : path.normalize ∉ first.normalize :: rest.map Path.normalize := fun member =>
          (List.mem_cons.mp member).elim (fun same => here same.symm) later
        rw [if_neg here, if_neg elsewhere]

/-! ### What discovery leaves -/

/-- The workspace with the descriptors that were found: those that were not registered are, and
then the modules of those are linked. -/
def takeIn (workspace : Workspace) (files : FileTree) (found : List Path) : Workspace :=
  let created := (found.filter fun path => (workspace.get? path).isNone).map
    (Project.fromDisk files)
  created.foldl (fun linked lister => linked.linkModules files lister)
    (workspace.insertAll created)

theorem discover_eq (workspace : Workspace) (files : FileTree) (folder : Path)
    (settings : DiscoverySettings) :
    workspace.discover files folder settings =
      (findDescriptors files folder settings).map fun found =>
        (workspace.takeIn files found, found) := by
  rw [discover]
  cases findDescriptors files folder settings <;> rfl

variable {workspace next : Workspace} {files : FileTree} {folder : Path}
  {settings : DiscoverySettings} {found : List Path}

theorem takeIn_of_discover
    (discovered : workspace.discover files folder settings = .ok (next, found)) :
    next = workspace.takeIn files found ∧ ∀ path ∈ found, path.normalize = path := by
  rw [discover_eq] at discovered
  cases finds : findDescriptors files folder settings with
  | error failure =>
    rw [finds] at discovered
    cases discovered
  | ok paths =>
    rw [finds] at discovered
    cases discovered
    exact ⟨rfl, normalize_of_mem_found finds⟩

/-- What discovery registers: each path that was found and was free. -/
theorem mem_registered_iff (normal : ∀ path ∈ found, path.normalize = path) (path : Path) :
    path.normalize ∈ (found.filter fun other => (workspace.get? other).isNone).map Path.normalize ↔
      path.normalize ∈ found ∧ workspace.get? path = none := by
  rw [get?_congr path.normalize_normalize.symm, List.mem_map]
  constructor
  · rintro ⟨other, member, same⟩
    obtain ⟨isFound, free⟩ := List.mem_filter.mp member
    rw [← same, normal other isFound]
    exact ⟨isFound, Option.isNone_iff_eq_none.mp free⟩
  · rintro ⟨isFound, free⟩
    exact ⟨path.normalize, List.mem_filter.mpr ⟨isFound, Option.isNone_iff_eq_none.mpr free⟩,
      path.normalize_normalize⟩

theorem find?_registered (normal : ∀ path ∈ found, path.normalize = path) (path : Path) :
    (((found.filter fun other => (workspace.get? other).isNone).map (Project.fromDisk files)).find?
        fun lister => path ∈ lister.modules files).map Project.path =
      found.find? fun lister =>
        workspace.get? lister = none ∧ path ∈ (Project.fromDisk files lister).modules files := by
  rw [List.find?_map, List.find?_filter, Option.map_map]
  simp only [Function.comp_apply, decide_eq_true_eq, Option.isNone_iff_eq_none]
  cases finds : found.find? fun lister => decide
      (workspace.get? lister = none ∧ path ∈ (Project.fromDisk files lister).modules files) with
  | none => rfl
  | some lister =>
    rw [Option.map_some, Function.comp_apply, Project.path_fromDisk,
      normal lister (List.mem_of_find?_eq_some finds)]

/-- What is registered at a path when discovery is done. -/
theorem get?_takeIn (normal : ∀ path ∈ found, path.normalize = path) (path : Path) :
    (workspace.takeIn files found).get? path =
      ((workspace.get? path).or
          (if path.normalize ∈ found then some (.fromDisk files path) else none)).map
        fun project => project.withLink (found.find? fun lister => workspace.get? lister = none ∧
          path.normalize ∈ (Project.fromDisk files lister).modules files) := by
  have registered := workspace.get?_insertAll files
    (found.filter fun path => (workspace.get? path).isNone) path
  rw [takeIn, get?_linkModules_foldl, ← find?_registered normal path.normalize]
  refine congrArg₂ Option.map rfl (registered.trans ?_)
  by_cases fresh : path.normalize ∈ found ∧ workspace.get? path = none
  · rw [if_pos ((mem_registered_iff normal path).mpr fresh), fresh.2, if_pos fresh.1, Option.none_or]
  · rw [if_neg fun member => fresh ((mem_registered_iff normal path).mp member)]
    cases known : workspace.get? path with
    | some project => rfl
    | none =>
      have unfound : path.normalize ∉ found := fun isFound => fresh ⟨isFound, known⟩
      rw [if_neg unfound, Option.none_or]

/-! ### Which modules are linked -/

/-- A project that discovery has registered and that lists a module. -/
def ListsAnew (before after : Workspace) (files : FileTree) (module lister : Path) : Prop :=
  before.get? lister = none ∧
    ∃ project, after.get? lister = some project ∧ module ∈ project.modules files

theorem listsAnew_takeIn_iff (normal : ∀ path ∈ found, path.normalize = path)
    {module lister : Path} (isFound : lister ∈ found) :
    ListsAnew workspace (workspace.takeIn files found) files module lister ↔
      workspace.get? lister = none ∧ module ∈ (Project.fromDisk files lister).modules files := by
  refine and_congr_right fun free => ?_
  have registered : (workspace.takeIn files found).get? lister = _ := get?_takeIn normal lister
  rw [free, Option.none_or, normal lister isFound, if_pos isFound, Option.map_some] at registered
  constructor
  · rintro ⟨project, isProject, member⟩
    cases registered.symm.trans isProject
    exact member
  · exact fun member => ⟨_, registered, member⟩

/-- The link of the project at a path. -/
def linkAt? (workspace : Workspace) (path : Path) : Option Path :=
  workspace.get? path >>= Project.parentLink

/-- The link of a module when discovery is done: the one from before, else one to the first project
that lists it, among those that were not registered before. -/
inductive Link (before after : Workspace) (files : FileTree) (found : List Path) (module : Path) :
    Option Path → Prop
  | kept {link : Path} (linked : before.linkAt? module = some link) :
    Link before after files found module (some link)
  | made {earlier later : List Path} {lister : Path} (unlinked : before.linkAt? module = none)
    (isFound : found = earlier ++ lister :: later)
    (lists : ListsAnew before after files module lister)
    (first : ∀ other ∈ earlier, ¬ ListsAnew before after files module other) :
    Link before after files found module (some lister)
  | missing (unlinked : before.linkAt? module = none)
    (unlisted : ∀ other ∈ found, ¬ ListsAnew before after files module other) :
    Link before after files found module none

theorem parentLink_takeIn (normal : ∀ path ∈ found, path.normalize = path) {module : Path}
    (isNormal : module.normalize = module) {listed : Project}
    (isListed : (workspace.takeIn files found).get? module = some listed) :
    listed.parentLink = (workspace.linkAt? module).or (found.find? fun lister =>
      workspace.get? lister = none ∧ module ∈ (Project.fromDisk files lister).modules files) := by
  rw [get?_takeIn normal, isNormal, Option.map_eq_some_iff] at isListed
  obtain ⟨project, isProject, rfl⟩ := isListed
  rw [Project.withLink]
  refine congrArg (Option.or · _) ?_
  cases known : workspace.get? module with
  | some old =>
    rw [known, Option.some_or] at isProject
    cases isProject
    rw [linkAt?, known]
    rfl
  | none =>
    rw [known, Option.none_or] at isProject
    split at isProject
    · cases isProject
      rw [linkAt?, known, Project.parentLink_fromDisk]
      rfl
    · cases isProject

theorem link_takeIn (normal : ∀ path ∈ found, path.normalize = path) {module : Path}
    (isNormal : module.normalize = module) {listed : Project}
    (isListed : (workspace.takeIn files found).get? module = some listed) :
    Link workspace (workspace.takeIn files found) files found module listed.parentLink := by
  rw [parentLink_takeIn normal isNormal isListed]
  cases linked : workspace.linkAt? module with
  | some link => exact .kept linked
  | none =>
    rw [Option.none_or]
    cases first : found.find? fun lister => decide
        (workspace.get? lister = none ∧ module ∈ (Project.fromDisk files lister).modules files) with
    | some lister =>
      obtain ⟨lists, earlier, later, isFound, others⟩ := List.find?_eq_some_iff_append.mp first
      refine .made linked isFound ?_ fun other member => ?_
      · exact (listsAnew_takeIn_iff normal (by simp [isFound])).mpr (of_decide_eq_true lists)
      · rw [listsAnew_takeIn_iff normal (by simp [isFound, member])]
        simpa [← not_and_or] using others other member
    | none =>
      refine .missing linked fun other member => ?_
      rw [listsAnew_takeIn_iff normal member]
      simpa using List.find?_eq_none.mp first other member

theorem Link.isSome_iff {before after : Workspace} {module : Path} {link : Option Path}
    (isLink : Link before after files found module link) :
    link.isSome ↔ (before.linkAt? module).isSome ∨
      ∃ other ∈ found, ListsAnew before after files module other := by
  cases isLink with
  | kept linked => simp [linked]
  | made unlinked isFound lists first =>
    exact ⟨fun _ => Or.inr ⟨_, by simp [isFound], lists⟩, fun _ => rfl⟩
  | missing unlinked unlisted =>
    rw [unlinked]
    simpa using unlisted

/-- What discovery finds is registered, and the modules of a project that it finds are linked if
and only if they were before or a project lists them that was not registered before. -/
theorem links_of_discover
    (discovered : workspace.discover files folder settings = .ok (next, found)) :
    ∀ lister ∈ found, ∃ project, next.get? lister = some project ∧
      ∀ module ∈ project.modules files, ∀ listed, next.get? module = some listed →
        Link workspace next files found module listed.parentLink ∧
        (listed.parentLink.isSome ↔ (workspace.linkAt? module).isSome ∨
          ∃ other ∈ found, ListsAnew workspace next files module other) := by
  obtain ⟨rfl, normal⟩ := takeIn_of_discover discovered
  intro lister isFound
  have registered : ((workspace.takeIn files found).get? lister).isSome := by
    rw [get?_takeIn normal, normal lister isFound, if_pos isFound]
    simp
  obtain ⟨project, isProject⟩ := Option.isSome_iff_exists.mp registered
  refine ⟨project, isProject, fun module member listed isListed => ?_⟩
  have link := link_takeIn normal (Project.normalize_of_mem_modules member) isListed
  exact ⟨link, link.isSome_iff⟩

/-! ### Modules of a project that was registered already -/

/-- A project with two modules, the first of which lists the second. -/
def nested : FileTree :=
  ((FileTree.empty.add ["ws", "web", "pom.xml"] (.file "<project/>" false)).add ["ws", "pom.xml"]
      (.file "<project><modules><module>core</module><module>web</module></modules></project>"
        false)).add ["ws", "core", "pom.xml"]
    (.file "<project><modules><module>../web</module></modules></project>" false)

/-- The paths of the nested projects in their order. -/
def nestedPaths : List Path :=
  [⟨"/ws/core/pom.xml"⟩, ⟨"/ws/pom.xml"⟩, ⟨"/ws/web/pom.xml"⟩]

theorem discover_nested (workspace : Workspace) :
    workspace.discover nested ⟨"/ws"⟩ .standard =
      .ok (workspace.takeIn nested nestedPaths, nestedPaths) := by
  have below : descriptorsBelow nested ⟨"/ws"⟩ .standard = .ok nestedPaths :=
    toOption_eq_some_iff.mp (by decide +kernel)
  have sorted : nestedPaths.mergeSort Path.le = nestedPaths :=
    List.mergeSort_of_pairwise (by decide +kernel)
  rw [discover_eq, findDescriptors_eq, below, Except.map, sorted]
  rfl

/-- The outer project is registered before anything is discovered. -/
def outerKnown : Workspace :=
  (Workspace.empty.add nested ⟨"/ws/pom.xml"⟩).1

/-- The modules of the outer project, when it was registered before. -/
theorem links_of_discover_outerKnown :
    outerKnown.discover nested ⟨"/ws"⟩ .standard =
        .ok (outerKnown.takeIn nested nestedPaths, nestedPaths) ∧
      ∀ lister ∈ nestedPaths, ∃ project,
        (outerKnown.takeIn nested nestedPaths).get? lister = some project ∧
        ∀ module ∈ project.modules nested, ∀ listed,
          (outerKnown.takeIn nested nestedPaths).get? module = some listed →
          Link outerKnown (outerKnown.takeIn nested nestedPaths) nested nestedPaths module
              listed.parentLink ∧
            (listed.parentLink.isSome ↔ (outerKnown.linkAt? module).isSome ∨
              ∃ other ∈ nestedPaths,
                ListsAnew outerKnown (outerKnown.takeIn nested nestedPaths) nested module other) :=
  ⟨discover_nested outerKnown, links_of_discover (discover_nested outerKnown)⟩

/-- A module that is found is not linked to the project that lists it, although that one is found
too, because it was registered before. In an empty workspace the same discovery links it. -/
theorem unlinked_of_outerKnown :
    (∃ next, outerKnown.discover nested ⟨"/ws"⟩ .standard = .ok (next, nestedPaths) ∧
      ⟨"/ws/pom.xml"⟩ ∈ nestedPaths ∧
      (next.get? ⟨"/ws/pom.xml"⟩).map (fun project => project.modules nested) =
        some [⟨"/ws/core/pom.xml"⟩, ⟨"/ws/web/pom.xml"⟩] ∧
      (next.get? ⟨"/ws/core/pom.xml"⟩).map Project.parentLink = some none) ∧
    ∃ next, empty.discover nested ⟨"/ws"⟩ .standard = .ok (next, nestedPaths) ∧
      (next.get? ⟨"/ws/core/pom.xml"⟩).map Project.parentLink = some (some ⟨"/ws/pom.xml"⟩) :=
  ⟨⟨_, discover_nested outerKnown, by decide, by decide +kernel, by decide +kernel⟩,
    _, discover_nested empty, by decide +kernel⟩

end Workspace

end PomLens
