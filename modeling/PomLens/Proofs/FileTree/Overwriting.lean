/-
This file says what it means that one file of a tree gets a new content.

Paths are resolved by what kind of thing stands at each location, and a file stays a file, so every
path leads to where it led before (`resolve_congr`). What stands at all other locations is the same.
-/

import Mathlib.Data.List.Basic
import PomLens.FileTree
import PomLens.Proofs.Lookup
import PomLens.Proofs.Outcome

namespace PomLens.FileTree

variable {before after : FileTree}

/-- The file at a path has this content afterwards, all paths lead to where they led, and nothing
is different at any other location. -/
structure Rewrites (before : FileTree) (path : Path) (content : String) (after : FileTree) :
    Prop where
  reads : after.read path = .ok content
  resolves : ∀ other, after.resolve other = before.resolve other
  others : ∀ location, before.resolve path ≠ .ok location → after.at? location = before.at? location

/-- What stands where after something was put below the root. -/
theorem at?_set {location : FileLocation} (below : location ≠ []) (tree : FileTree)
    (entry : FileEntry) (other : FileLocation) :
    (tree.set location entry).at? other =
      if other = location then some entry else tree.at? other := by
  by_cases same : other = location
  · subst same
    simp [at?, set, below, List.isEmpty_iff]
  · rw [if_neg same, at?, at?, set, List.lookup_cons, beq_eq_false_iff_ne.mpr same,
      lookup_filter_ne, if_neg same]

/-- Only the kinds of entries decide where a step leads. -/
theorem step_congr
    (kinds : ∀ location, (after.at? location).map FileEntry.isFile =
      (before.at? location).map FileEntry.isFile) : after.step = before.step := by
  have there (location : FileLocation) :
      (after.at? location).isSome = (before.at? location).isSome := by
    simpa using congrArg Option.isSome (kinds location)
  funext location part
  have kind := kinds location
  simp only [step, there]
  generalize after.at? location = entry at kind
  generalize before.at? location = entry' at kind
  rcases entry with _ | _ | _ | _ <;> rcases entry' with _ | _ | _ | _ <;> first | rfl | cases kind

theorem resolve_congr (current : after.current = before.current)
    (kinds : ∀ location, (after.at? location).map FileEntry.isFile =
      (before.at? location).map FileEntry.isFile) (path : Path) :
    after.resolve path = before.resolve path := by
  simp only [resolve, current, step_congr kinds]

/-- Where a text is read stands a file with it. -/
theorem exists_of_read {path : Path} {content : String} (read : before.read path = .ok content) :
    ∃ location executable, before.resolve path = .ok location ∧
      before.at? location = some (.file content executable) := by
  rw [FileTree.read] at read
  obtain ⟨location, resolved, found⟩ := exists_of_bind_eq_ok read
  refine ⟨location, ?_⟩
  split at found
  · next text executable isFile =>
    cases found
    exact ⟨executable, resolved, isFile⟩
  all_goals cases found

/-- A text that can be read can be replaced. -/
theorem exists_overwrite {path : Path} {old : String} (read : before.read path = .ok old)
    (content : String) :
    ∃ after, before.overwrite path content = .ok after ∧ before.Rewrites path content after := by
  obtain ⟨location, executable, resolved, isFile⟩ := exists_of_read read
  have below : location ≠ [] := by
    rintro rfl
    cases isFile
  have isBehind := at?_set below before (.file content executable)
  have sameCurrent : (before.set location (.file content executable)).current = before.current :=
    rfl
  generalize changed : before.set location (.file content executable) = after at *
  have kinds (place : FileLocation) :
      (after.at? place).map FileEntry.isFile = (before.at? place).map FileEntry.isFile := by
    rw [isBehind]
    split
    · next here =>
      rw [here, isFile]
      rfl
    · rfl
  have resolves := resolve_congr sameCurrent kinds
  refine ⟨after, ?_, ?_, resolves, fun other elsewhere => ?_⟩
  · rw [overwrite, resolved]
    simp only [bind, Except.bind, isFile, changed]
    rfl
  · rw [FileTree.read, resolves, resolved]
    simp only [bind, Except.bind, isBehind]
    rfl
  · rw [isBehind, if_neg]
    rintro rfl
    exact elsewhere resolved

end PomLens.FileTree
