/-
This file follows a project's lineage to its end.

Parents are found in two ways, so going from parent to parent may come round in a circle of any
length. `Climb` says how such a way goes without a bound on its steps: it goes on as long as there
is a parent that was not visited. All that is visited is registered and nothing is visited twice,
so the number of the registered projects bounds the steps, and the bound that the lineage is
computed with never cuts it off (`climb_lineageFrom`). What holds of a climb is then read off its
steps, and the first project on it that has a property decides what the property is.
-/

import Mathlib.Data.List.Perm.Subperm
import PomLens.Workspace.Inheritance
import PomLens.Proofs.Workspace.Registered

namespace PomLens

namespace Workspace

variable {workspace : Workspace} {files : FileTree} {project : Project} {visited : List Path}
  {above : List Project}

/-! ### Parents -/

/-- Which project is the parent of one: that at the declared place, if one is registered there,
else that which is recorded to list it as a module. -/
inductive IsParent (workspace : Workspace) (files : FileTree) (project : Project) :
    Option Project → Prop
  | declared {path : Path} {parent : Project} (declares : project.parentPath? files = some path)
    (registered : workspace.get? path = some parent) :
    IsParent workspace files project (some parent)
  | linked {path : Path} {parent : Project}
    (undeclared : ∀ path, project.parentPath? files = some path → workspace.get? path = none)
    (links : project.parentLink = some path) (registered : workspace.get? path = some parent) :
    IsParent workspace files project (some parent)
  | none (undeclared : ∀ path, project.parentPath? files = some path → workspace.get? path = none)
    (unlinked : ∀ path, project.parentLink = some path → workspace.get? path = none) :
    IsParent workspace files project none

theorem isParent_parentOf? (workspace : Workspace) (files : FileTree) (project : Project) :
    workspace.IsParent files project (workspace.parentOf? files project) := by
  rw [parentOf?, Option.orElse_eq_orElse, Option.orElse_eq_or]
  cases declared : project.parentPath? files >>= workspace.get? with
  | some parent =>
    obtain ⟨path, declares, registered⟩ := Option.bind_eq_some_iff.mp declared
    exact .declared declares registered
  | none =>
    have undeclared := Option.bind_eq_none_iff.mp declared
    rw [Option.none_or]
    cases linked : project.parentLink >>= workspace.get? with
    | some parent =>
      obtain ⟨path, links, registered⟩ := Option.bind_eq_some_iff.mp linked
      exact .linked undeclared links registered
    | none => exact .none undeclared (Option.bind_eq_none_iff.mp linked)

/-- A parent is registered. -/
theorem get?_of_parentOf? {parent : Project}
    (isParent : workspace.parentOf? files project = some parent) :
    workspace.get? parent.path = some parent := by
  have isFound := workspace.isParent_parentOf? files project
  rw [isParent] at isFound
  cases isFound with
  | declared _ registered => exact get?_path_of_get? registered
  | linked _ _ registered => exact get?_path_of_get? registered

theorem mem_paths_of_parentOf? {parent : Project}
    (isParent : workspace.parentOf? files project = some parent) :
    parent.path ∈ workspace.paths :=
  List.mem_map_of_mem (mem_of_get? (get?_of_parentOf? isParent))

/-! ### The way up -/

/-- The way from parent to parent, as far as it does not come to what was visited. -/
inductive Climb (workspace : Workspace) (files : FileTree) :
    Project → List Path → List Project → Prop
  | ended {project : Project} {visited : List Path}
    (ends : ∀ parent, workspace.parentOf? files project = some parent → parent.path ∈ visited) :
    Climb workspace files project visited []
  | up {project parent : Project} {visited : List Path} {above : List Project}
    (isParent : workspace.parentOf? files project = some parent)
    (fresh : parent.path ∉ visited)
    (further : Climb workspace files parent (parent.path :: visited) above) :
    Climb workspace files project visited (parent :: above)

/-- Paths that are registered and differ are all of them if they are as many. -/
theorem mem_of_size_le {seen : List Path} (distinct : seen.Nodup)
    (registered : ∀ path ∈ seen, path ∈ workspace.paths) (all : workspace.size ≤ seen.length)
    {path : Path} (member : path ∈ workspace.paths) : path ∈ seen := by
  have asMany : workspace.paths.length ≤ seen.length := by
    rwa [paths, List.length_map]
  have same : seen.Perm workspace.paths :=
    (List.subperm_of_subset distinct registered).perm_of_length_le asMany
  exact same.mem_iff.mpr member

/-- With a step left for each registered project that was not seen, the way is gone to its
end. -/
theorem climb_lineageFrom {seen : List Path} (distinct : seen.Nodup)
    (registered : ∀ path ∈ seen, path ∈ workspace.paths) (wereVisited : ∀ path ∈ seen, path ∈ visited)
    {fuel : Nat} (enough : workspace.size ≤ seen.length + fuel) :
    Climb workspace files project visited (workspace.lineageFrom files project visited fuel) := by
  induction fuel generalizing project visited seen with
  | zero =>
    refine .ended fun parent isParent => wereVisited _ ?_
    exact mem_of_size_le distinct registered enough (mem_paths_of_parentOf? isParent)
  | succ fuel inductionHypothesis =>
    rw [lineageFrom]
    split
    · next noParent => exact .ended fun parent isParent => by rw [noParent] at isParent; cases isParent
    · next parent isParent =>
      split
      · next again =>
        refine .ended fun other isOther => ?_
        rw [isParent] at isOther
        cases isOther
        exact again
      · next fresh =>
        have unseen : parent.path ∉ seen := fun member => fresh (wereVisited _ member)
        refine .up isParent fresh (inductionHypothesis
          (List.nodup_cons.mpr ⟨unseen, distinct⟩)
          (List.forall_mem_cons.mpr ⟨mem_paths_of_parentOf? isParent, registered⟩) ?_ ?_)
        · exact List.forall_mem_cons.mpr ⟨List.mem_cons_self, fun path member =>
            List.mem_cons_of_mem _ (wereVisited path member)⟩
        · rw [List.length_cons]
          omega

namespace Climb

/-- There is only one way. -/
theorem unique {other : List Project} (climb : Climb workspace files project visited above)
    (climbs : Climb workspace files project visited other) : above = other := by
  induction climb generalizing other with
  | ended ends =>
    cases climbs with
    | ended => rfl
    | up isParent fresh => exact absurd (ends _ isParent) fresh
  | up isParent fresh _ inductionHypothesis =>
    cases climbs with
    | ended ends => exact absurd (ends _ isParent) fresh
    | up isOther _ further =>
      rw [isParent] at isOther
      cases isOther
      rw [inductionHypothesis further]

theorem fresh (climb : Climb workspace files project visited above) :
    ∀ ancestor ∈ above, ancestor.path ∉ visited := by
  induction climb with
  | ended => simp
  | up _ fresh _ inductionHypothesis =>
    refine List.forall_mem_cons.mpr ⟨fresh, fun ancestor member again => ?_⟩
    exact inductionHypothesis ancestor member (List.mem_cons_of_mem _ again)

theorem distinct (climb : Climb workspace files project visited above) :
    (above.map Project.path).Nodup := by
  induction climb with
  | ended => exact List.nodup_nil
  | up _ _ further inductionHypothesis =>
    refine List.nodup_cons.mpr ⟨fun member => ?_, inductionHypothesis⟩
    obtain ⟨ancestor, isAncestor, same⟩ := List.mem_map.mp member
    exact further.fresh ancestor isAncestor (same ▸ List.mem_cons_self)

theorem registered (climb : Climb workspace files project visited above) :
    ∀ ancestor ∈ above, workspace.get? ancestor.path = some ancestor := by
  induction climb with
  | ended => simp
  | up isParent _ _ inductionHypothesis =>
    exact List.forall_mem_cons.mpr ⟨get?_of_parentOf? isParent, inductionHypothesis⟩

theorem ascends (climb : Climb workspace files project visited above) :
    (project :: above).IsChain fun lower upper => workspace.parentOf? files lower = some upper := by
  induction climb with
  | ended => exact .singleton _
  | up isParent _ _ inductionHypothesis => exact .cons_cons isParent inductionHypothesis

theorem ends (climb : Climb workspace files project visited above) {last parent : Project}
    (isLast : (project :: above).getLast? = some last)
    (isParent : workspace.parentOf? files last = some parent) :
    parent.path ∈ visited ∨ parent.path ∈ above.map Project.path := by
  induction climb with
  | ended ends =>
    cases isLast
    exact Or.inl (ends parent isParent)
  | up _ _ _ inductionHypothesis =>
    rw [List.getLast?_cons_cons] at isLast
    rcases inductionHypothesis isLast with again | again
    · rcases List.mem_cons.mp again with here | earlier
      · exact Or.inr (here ▸ List.mem_cons_self)
      · exact Or.inl earlier
    · exact Or.inr (List.mem_cons_of_mem _ again)

end Climb

/-! ### The lineage -/

/-- What makes projects the lineage of one: they are registered and none of them comes twice, each
is the parent of the one below, and above the last there is none or one that is among them. -/
structure IsLineage (workspace : Workspace) (files : FileTree) (project : Project)
    (above : List Project) : Prop where
  distinct : ((project :: above).map Project.path).Nodup
  registered : ∀ ancestor ∈ above, workspace.get? ancestor.path = some ancestor
  ascends : (project :: above).IsChain fun lower upper =>
    workspace.parentOf? files lower = some upper
  ends : ∀ last parent, (project :: above).getLast? = some last →
    workspace.parentOf? files last = some parent →
    parent.path ∈ (project :: above).map Project.path

theorem Climb.isLineage (climb : Climb workspace files project [project.path] above) :
    workspace.IsLineage files project above where
  distinct := by
    refine List.nodup_cons.mpr ⟨fun member => ?_, climb.distinct⟩
    obtain ⟨ancestor, isAncestor, same⟩ := List.mem_map.mp member
    exact climb.fresh ancestor isAncestor (List.mem_singleton.mpr same)
  registered := climb.registered
  ascends := climb.ascends
  ends last parent isLast isParent := by
    rw [List.map_cons, List.mem_cons]
    exact (climb.ends isLast isParent).imp List.mem_singleton.mp id

theorem climb_of_size_le (workspace : Workspace) (files : FileTree) (project : Project)
    {fuel : Nat} (enough : workspace.size ≤ fuel) :
    Climb workspace files project [project.path]
      (workspace.lineageFrom files project [project.path] fuel) :=
  climb_lineageFrom List.nodup_nil (by simp) (by simp) (by simpa using enough)

theorem climb_lineage (workspace : Workspace) (files : FileTree) (project : Project) :
    Climb workspace files project [project.path] (workspace.lineage files project) :=
  climb_of_size_le workspace files project (Nat.le_succ _)

end Workspace

/-! ### Inherited properties -/

namespace Project

/-- The value that a name has in every project, if it is one of three. -/
inductive BuiltIn (project : Project) (workspace : Workspace) (files : FileTree) :
    String → Option String → Prop
  | group : BuiltIn project workspace files "project.groupId" (project.group? workspace files)
  | artifact : BuiltIn project workspace files "project.artifactId" project.artifact?
  | version : BuiltIn project workspace files "project.version" (project.version? workspace files)
  | none {name : String}
    (other : name ∉ ["project.groupId", "project.artifactId", "project.version"]) :
    BuiltIn project workspace files name .none

/-- What a property comes to: the project's own value, else that of the nearest project above that
has one, else a value that all projects have, if any. -/
inductive Resolves (project : Project) (workspace : Workspace) (files : FileTree) (name : String) :
    Option String → Prop
  | own {value : String} (has : project.property? name = some value) :
    Resolves project workspace files name (some value)
  | inherited {value : String} {below above : List Project} {ancestor : Project}
    (lacks : project.property? name = none)
    (lineage : workspace.lineage files project = below ++ ancestor :: above)
    (nearest : ∀ lower ∈ below, lower.property? name = none)
    (has : ancestor.property? name = some value) :
    Resolves project workspace files name (some value)
  | builtIn {value : Option String} (lacks : project.property? name = none)
    (nowhere : ∀ ancestor ∈ workspace.lineage files project, ancestor.property? name = none)
    (isBuiltIn : project.BuiltIn workspace files name value) :
    Resolves project workspace files name value

theorem builtIn_builtInProperty? (project : Project) (workspace : Workspace) (files : FileTree)
    (name : String) :
    project.BuiltIn workspace files name (project.builtInProperty? workspace files name) := by
  unfold builtInProperty?
  split
  · exact .group
  · exact .artifact
  · exact .version
  · next notGroup notArtifact notVersion =>
    exact .none (by simpa using ⟨notGroup, notArtifact, notVersion⟩)

theorem resolves_resolveProperty? (project : Project) (workspace : Workspace) (files : FileTree)
    (name : String) :
    project.Resolves workspace files name (project.resolveProperty? workspace files name) := by
  rw [resolveProperty?, List.findSome?_cons]
  cases own : project.property? name with
  | some value => exact .own own
  | none =>
    cases inherited : (workspace.lineage files project).findSome? fun origin =>
        origin.property? name with
    | some value =>
      obtain ⟨below, ancestor, above, lineage, has, nearest⟩ :=
        List.findSome?_eq_some_iff.mp inherited
      exact .inherited own lineage nearest has
    | none =>
      exact .builtIn own (List.findSome?_eq_none_iff.mp inherited)
        (project.builtIn_builtInProperty? workspace files name)

/-- The lineage of a project ends by itself, whatever circles its parents form: no larger bound on
its steps makes it longer. Parents are found at their declared places, else by links, and the
nearest project on the lineage that has a property decides the property. -/
theorem lineage_resolves (workspace : Workspace) (files : FileTree) (project : Project) :
    workspace.IsLineage files project (workspace.lineage files project) ∧
      (∀ lower, workspace.IsParent files lower (workspace.parentOf? files lower)) ∧
      (∀ more, workspace.lineageFrom files project [project.path] (workspace.size + more) =
        workspace.lineage files project) ∧
      ∀ name, project.Resolves workspace files name
        (project.resolveProperty? workspace files name) := by
  have climb := workspace.climb_lineage files project
  refine ⟨climb.isLineage, workspace.isParent_parentOf? files, fun more => ?_, ?_⟩
  · exact (workspace.climb_of_size_le files project (Nat.le_add_right _ more)).unique climb
  · exact project.resolves_resolveProperty? workspace files

/-- A project that is linked to one below it. -/
def ringTop : Project :=
  let read := ((new ⟨"/ws/pom.xml"⟩).parseDeclared
    "<project><properties><level>1</level></properties></project>").1
  { read with parentLink := some ⟨"/ws/core/pom.xml"⟩ }

/-- The project below, which declares that one as its parent. -/
def ringBottom : Project :=
  ((new ⟨"/ws/core/pom.xml"⟩).parseDeclared "<project><parent/></project>").1

/-- Each of two projects is the parent of the other. -/
def ring : Workspace :=
  ⟨[ringTop, ringBottom]⟩

/-- The way up ends before it would come round in the ring, and still finds what is inherited. -/
theorem lineage_resolves_ring :
    ring.parentOf? .empty ringTop = some ringBottom ∧
      ring.lineage .empty ringBottom = [ringTop] ∧
      ring.IsLineage .empty ringBottom (ring.lineage .empty ringBottom) ∧
      ring.IsParent .empty ringTop (some ringBottom) ∧
      ringBottom.Resolves ring .empty "level" (some "1") := by
  obtain ⟨isLineage, parents, -, resolves⟩ := lineage_resolves ring .empty ringBottom
  have comesRound : ring.parentOf? .empty ringTop = some ringBottom := by decide +kernel
  have found : ringBottom.resolveProperty? ring .empty "level" = some "1" := by decide +kernel
  exact ⟨comesRound, by decide +kernel, isLineage, comesRound ▸ parents ringTop,
    found ▸ resolves "level"⟩

end Project

end PomLens
