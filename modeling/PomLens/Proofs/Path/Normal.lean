/-
This file shows that a normal form is its own normal form.

Two things have to agree for that. Collapsing steps that are collapsed already changes nothing
(`collapse_collapse`), and steps written with one slash between them are read back as they were
(`components_ofComponents`). The latter needs the form that all lists of steps here have: the root
or nothing, and then only steps up and names, none of which has a slash inside.
-/

import PomLens.Path
import PomLens.Proofs.Text.Cutting

namespace PomLens.Path

/-! ### Collapsing -/

/-- What was kept so far is kept again when its steps are taken once more. -/
def Settled (kept : List Component) : Prop :=
  kept.reverse.foldl collapseStep [] = kept

theorem Settled.cons {kept : List Component} {step : Component} (settled : Settled kept)
    (added : collapseStep kept step = step :: kept) : Settled (step :: kept) := by
  rw [Settled, List.reverse_cons, List.foldl_append, settled, List.foldl_cons, List.foldl_nil,
    added]

theorem Settled.of_name {name : String} {before : List Component}
    (settled : Settled (.name name :: before)) : Settled before := by
  rw [Settled, List.reverse_cons, List.foldl_append, List.foldl_cons, List.foldl_nil,
    collapseStep] at settled
  · exact (List.cons.inj settled).2
  all_goals simp

theorem Settled.collapseStep {kept : List Component} (settled : Settled kept) (step : Component) :
    Settled (collapseStep kept step) := by
  cases step with
  | here => exact settled
  | root => exact settled.cons rfl
  | name text => exact settled.cons rfl
  | up =>
    match kept, settled with
    | [], settled => exact settled.cons rfl
    | .root :: before, settled => exact settled
    | .here :: before, settled => exact settled.cons rfl
    | .up :: before, settled => exact settled.cons rfl
    | .name text :: before, settled => exact settled.of_name

theorem settled_foldl {kept : List Component} (settled : Settled kept) (steps : List Component) :
    Settled (steps.foldl Path.collapseStep kept) := by
  induction steps generalizing kept with
  | nil => exact settled
  | cons step rest inductionHypothesis => exact inductionHypothesis (settled.collapseStep step)

theorem collapse_collapse (steps : List Component) : collapse (collapse steps) = collapse steps := by
  have settled : Settled (steps.foldl collapseStep []) :=
    settled_foldl (show Settled [] from rfl) steps
  rw [collapse, collapse, settled]

/-! ### Steps as they stand between slashes -/

/-- A step that is a part of a path between slashes. The root and a leading dot are not. -/
structure Component.IsPart (step : Component) : Prop where
  read : Component.ofPart? step.spelling.toList = some step
  closed : ∀ char ∈ step.spelling.toList, (char == '/') = false

theorem Component.spelling_of_ofPart? {part : List Char} {step : Component}
    (read : Component.ofPart? part = some step) : step.spelling.toList = part := by
  unfold Component.ofPart? at read
  split at read
  · cases read
  · split at read
    · next dots =>
      cases read
      rw [dots]
      rfl
    · cases read
      rw [Component.spelling, String.toList_ofList]

theorem Component.isPart_of_ofPart? {part : List Char} {step : Component}
    (read : Component.ofPart? part = some step) (closed : ∀ char ∈ part, (char == '/') = false) :
    step.IsPart := by
  have spelled := Component.spelling_of_ofPart? read
  exact ⟨by rwa [spelled], by rwa [spelled]⟩

namespace Component.IsPart

variable {step : Component} (isPart : step.IsPart)

include isPart

theorem ne_root : step ≠ .root := by
  rintro rfl
  exact absurd isPart.read (by decide)

theorem ne_here : step ≠ .here := by
  rintro rfl
  exact absurd isPart.read (by decide)

theorem spelling_ne_dot : step.spelling.toList ≠ ['.'] := fun dot => by
  have read := isPart.read
  rw [dot] at read
  cases read

theorem spelling_ne_nil : step.spelling.toList ≠ [] := fun empty => by
  have read := isPart.read
  rw [empty] at read
  cases read

end Component.IsPart

/-- The root or nothing, and then parts. -/
def AreWritten (steps : List Component) : Prop :=
  ∃ parts : List Component, (∀ step ∈ parts, step.IsPart) ∧
    (steps = parts ∨ steps = .root :: parts)

/-- The steps of a path are written ones, but for a leading dot. -/
theorem components_cases (path : Path) :
    AreWritten path.components ∨
      ∃ steps, AreWritten steps ∧ path.components = .here :: steps := by
  have areParts : ∀ step ∈
      (Text.splitOn (· == '/') path.text.toList).filterMap Component.ofPart?, step.IsPart := by
    intro step member
    obtain ⟨part, isPiece, read⟩ := List.mem_filterMap.mp member
    exact Component.isPart_of_ofPart? read fun char => Text.free_of_mem_splitOn isPiece char
  unfold components
  split
  · exact Or.inl ⟨_, areParts, Or.inr rfl⟩
  · dsimp only
    split
    · exact Or.inr ⟨_, ⟨_, areParts, Or.inl rfl⟩, rfl⟩
    · exact Or.inl ⟨_, areParts, Or.inl rfl⟩

/-! ### Collapsed steps are written ones -/

/-- Parts kept behind the root or nothing, the last of them first. -/
def AreKept (kept : List Component) : Prop :=
  ∃ parts : List Component, (∀ step ∈ parts, step.IsPart) ∧
    (kept = parts ∨ kept = parts ++ [.root])

theorem AreKept.collapseStep {kept : List Component} (areKept : AreKept kept) {step : Component}
    (isPart : step.IsPart) : AreKept (Path.collapseStep kept step) := by
  obtain ⟨parts, areParts, shape⟩ := areKept
  have added : AreKept (step :: kept) := by
    refine ⟨step :: parts, List.forall_mem_cons.mpr ⟨isPart, areParts⟩, ?_⟩
    rcases shape with rfl | rfl
    · exact Or.inl rfl
    · exact Or.inr rfl
  cases step with
  | root => exact absurd rfl isPart.ne_root
  | here => exact absurd rfl isPart.ne_here
  | name text => exact added
  | up =>
    match parts, areParts with
    | [], _ =>
      rcases shape with rfl | rfl
      · exact added
      · exact ⟨[], by simp, Or.inr rfl⟩
    | .name text :: before, areParts =>
      have areBefore := (List.forall_mem_cons.mp areParts).2
      rcases shape with rfl | rfl
      · exact ⟨before, areBefore, Or.inl rfl⟩
      · exact ⟨before, areBefore, Or.inr rfl⟩
    | .up :: before, _ => rcases shape with rfl | rfl <;> exact added
    | .root :: before, areParts => exact absurd rfl (areParts .root List.mem_cons_self).ne_root
    | .here :: before, areParts => exact absurd rfl (areParts .here List.mem_cons_self).ne_here

theorem areKept_foldl {kept parts : List Component} (areKept : AreKept kept)
    (areParts : ∀ step ∈ parts, step.IsPart) : AreKept (parts.foldl Path.collapseStep kept) := by
  induction parts generalizing kept with
  | nil => exact areKept
  | cons step rest inductionHypothesis =>
    obtain ⟨isPart, areRest⟩ := List.forall_mem_cons.mp areParts
    exact inductionHypothesis (areKept.collapseStep isPart) areRest

theorem AreKept.reverse {kept : List Component} (areKept : AreKept kept) :
    AreWritten kept.reverse := by
  obtain ⟨parts, areParts, shape⟩ := areKept
  rcases shape with rfl | rfl
  · exact ⟨kept.reverse, by simpa using areParts, Or.inl rfl⟩
  · exact ⟨parts.reverse, by simpa using areParts, Or.inr (by simp)⟩

theorem AreWritten.collapse {steps : List Component} (written : AreWritten steps) :
    AreWritten (collapse steps) := by
  obtain ⟨parts, areParts, rfl | rfl⟩ := written
  · exact (areKept_foldl ⟨[], by simp, Or.inl rfl⟩ areParts).reverse
  · exact (areKept_foldl (show AreKept [.root] from ⟨[], by simp, Or.inr rfl⟩) areParts).reverse

theorem areWritten_collapse (path : Path) : AreWritten (collapse path.components) := by
  rcases path.components_cases with written | ⟨steps, written, dotted⟩
  · exact written.collapse
  · -- A leading dot is the first thing to be dropped.
    rw [dotted]
    exact written.collapse

/-! ### Reading back -/

theorem toList_intercalate_slash (names : List String) :
    ("/".intercalate names).toList = ['/'].intercalate (names.map String.toList) := by
  simp

/-- The pieces of parts with slashes between them. -/
theorem splitOn_parts {parts : List Component} (areParts : ∀ step ∈ parts, step.IsPart)
    (some : parts ≠ []) :
    Text.splitOn (· == '/') ("/".intercalate (parts.map Component.spelling)).toList =
      parts.map fun step => step.spelling.toList := by
  rw [toList_intercalate_slash, List.map_map]
  refine Text.splitOn_intercalate (by simpa using some) ?_ rfl
  rintro piece isPiece
  obtain ⟨step, member, rfl⟩ := List.mem_map.mp isPiece
  exact (areParts step member).closed

theorem filterMap_parts {parts : List Component} (areParts : ∀ step ∈ parts, step.IsPart) :
    parts.filterMap (fun step => Component.ofPart? step.spelling.toList) = parts := by
  induction parts with
  | nil => rfl
  | cons step rest inductionHypothesis =>
    obtain ⟨isPart, areRest⟩ := List.forall_mem_cons.mp areParts
    simp only [List.filterMap_cons, isPart.read, inductionHypothesis areRest]

theorem filterMap_splitOn_parts {parts : List Component}
    (areParts : ∀ step ∈ parts, step.IsPart) :
    (Text.splitOn (· == '/') ("/".intercalate (parts.map Component.spelling)).toList).filterMap
      Component.ofPart? = parts := by
  match parts with
  | [] => rfl
  | first :: rest =>
    rw [splitOn_parts areParts (List.cons_ne_nil first rest), List.filterMap_map]
    exact filterMap_parts areParts

/-- Parts are written without a slash or a dot as a part at the start. -/
theorem ofComponents_parts {parts : List Component} (areParts : ∀ step ∈ parts, step.IsPart) :
    (ofComponents parts).text = "/".intercalate (parts.map Component.spelling) ∧
      (ofComponents parts).isAbsolute = false ∧
      (Text.splitOn (· == '/') (ofComponents parts).text.toList).head? ≠ some ['.'] := by
  match parts with
  | [] => exact ⟨rfl, rfl, by decide⟩
  | first :: rest =>
    have isPart := areParts first List.mem_cons_self
    have text : (ofComponents (first :: rest)).text =
        "/".intercalate ((first :: rest).map Component.spelling) := by
      rw [ofComponents]
      rintro others same
      exact isPart.ne_root (List.cons.inj same).1
    refine ⟨text, ?_, ?_⟩
    · cases spelled : first.spelling.toList with
      | nil => exact absurd spelled isPart.spelling_ne_nil
      | cons char chars =>
        have closed := isPart.closed char (by rw [spelled]; exact List.mem_cons_self)
        have head : (ofComponents (first :: rest)).text.toList.head? = some char := by
          rw [text, toList_intercalate_slash, List.map_cons, List.map_cons, spelled]
          cases rest <;> simp
        rw [isAbsolute, head]
        simpa using closed
    · rw [text, splitOn_parts areParts (List.cons_ne_nil first rest)]
      simpa using isPart.spelling_ne_dot

theorem components_ofComponents {steps : List Component} (written : AreWritten steps) :
    (ofComponents steps).components = steps := by
  obtain ⟨parts, areParts, shape⟩ := written
  rcases shape with rfl | rfl
  · obtain ⟨text, relative, undotted⟩ := ofComponents_parts areParts
    rw [components, relative]
    simp only [Bool.false_eq_true, if_false, if_neg undotted]
    rw [text, filterMap_splitOn_parts areParts]
  · have text : (ofComponents (.root :: parts)).text.toList =
        '/' :: ("/".intercalate (parts.map Component.spelling)).toList := by
      rw [ofComponents, String.toList_append]
      rfl
    have absolute : (ofComponents (.root :: parts)).isAbsolute = true := by
      rw [isAbsolute, text]
      rfl
    rw [components, if_pos absolute, text, ← List.nil_append ('/' :: _),
      Text.splitOn_append (by simp) rfl, List.filterMap_cons_none rfl,
      filterMap_splitOn_parts areParts]

/-- The steps of a normal form. -/
theorem components_normalize (path : Path) :
    path.normalize.components = collapse path.components :=
  components_ofComponents path.areWritten_collapse

@[simp] theorem normalize_normalize (path : Path) : path.normalize.normalize = path.normalize := by
  rw [normalize, components_normalize, collapse_collapse, ← normalize]

end PomLens.Path
