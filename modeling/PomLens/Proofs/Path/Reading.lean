/-
This file proves that normal forms are canonical.

Reading a path from the left comes to a place: the root or some steps up, and names below it
(`Reading`). A step up goes back over the last name, does nothing at the root, and goes further up
where there is no name. A normal form spells the place that its path comes to
(`components_normalize_eq`), so two paths have one normal form exactly if they come to one place.
Reading goes on from a place without knowing how it was come to, so a path may be normalized before
another one is put behind it.
-/

import PomLens.Proofs.Path.Normal

namespace PomLens.Path

/-! ### Places -/

/-- Where a reading stands when all names are taken back. -/
inductive Base
  | root
  /-- Steps up from where a relative path starts. -/
  | above (steps : Nat)
  deriving DecidableEq, Repr

/-- The steps to a base. -/
def Base.components : Base → List Component
  | .root => [.root]
  | .above steps => List.replicate steps .up

/-- What is come to by reading a path up to some step. -/
structure Reading where
  base : Base
  /-- The names below the base, the last one first. -/
  names : List String
  deriving DecidableEq, Repr

namespace Reading

/-- Nothing is read yet. -/
def start : Reading :=
  ⟨.above 0, []⟩

/-- The place after one more step. -/
def step : Reading → Component → Reading
  | _, .root => ⟨.root, []⟩
  | reading, .here => reading
  | ⟨base, names⟩, .name text => ⟨base, text :: names⟩
  | ⟨base, _ :: names⟩, .up => ⟨base, names⟩
  | ⟨.root, []⟩, .up => ⟨.root, []⟩
  | ⟨.above steps, []⟩, .up => ⟨.above (steps + 1), []⟩

/-- The steps to a place. -/
def components (reading : Reading) : List Component :=
  reading.base.components ++ reading.names.reverse.map .name

/-- Reading on along the steps to the names of a place. -/
theorem foldl_step_names (base : Base) (names others : List String) :
    (others.map Component.name).foldl step ⟨base, names⟩ = ⟨base, others.reverse ++ names⟩ := by
  induction others generalizing names with
  | nil => rfl
  | cons name others inductionHypothesis =>
    rw [List.map_cons, List.foldl_cons, step, inductionHypothesis]
    simp

theorem foldl_step_base (base : Base) : base.components.foldl step start = ⟨base, []⟩ := by
  cases base with
  | root => rfl
  | above steps =>
    induction steps with
    | zero => rfl
    | succ steps inductionHypothesis =>
      rw [Base.components] at inductionHypothesis ⊢
      rw [List.replicate_succ', List.foldl_append, inductionHypothesis]
      rfl

/-- The steps to a place come to it. -/
theorem foldl_step_components (reading : Reading) :
    reading.components.foldl step start = reading := by
  rw [components, List.foldl_append, foldl_step_base, foldl_step_names, List.reverse_reverse,
    List.append_nil]

/-- Different places have different steps. -/
theorem components_inj {first second : Reading} :
    first.components = second.components ↔ first = second := by
  refine ⟨fun same => ?_, congrArg components⟩
  rw [← foldl_step_components first, same, foldl_step_components]

/-- There are no dots among the steps to a place. -/
theorem here_notMem_components (reading : Reading) : .here ∉ reading.components := by
  rcases reading with ⟨_ | steps, names⟩ <;> simp [components, Base.components]

/-- Before a step up there are only steps up. -/
theorem eq_up_of_components {reading : Reading} {before after : List Component}
    (whole : reading.components = before ++ .up :: after) : ∀ step ∈ before, step = .up := by
  rcases reading with ⟨_ | steps, names⟩
  · have member : Component.up ∈ components ⟨.root, names⟩ := whole ▸ by simp
    simp [components, Base.components] at member
  · rcases List.append_eq_append_iff.mp whole with ⟨between, -, behind⟩ | ⟨between, front, -⟩
    · have member : Component.up ∈ names.reverse.map Component.name := behind ▸ by simp
      simp at member
    · intro step member
      exact List.eq_of_mem_replicate (front ▸ List.mem_append_left between member)

/-- A name goes below what is kept, and a step up takes back what is kept last. -/
theorem collapseStep_components (reading : Reading) {step : Component} (notRoot : step ≠ .root) :
    collapseStep reading.components.reverse step = (reading.step step).components.reverse := by
  obtain ⟨base, names⟩ := reading
  cases step with
  | root => exact absurd rfl notRoot
  | here => rfl
  | name text => simp [collapseStep, Reading.step, components]
  | up =>
    cases names with
    | cons name names => simp [collapseStep, Reading.step, components]
    | nil =>
      have upward (steps : Nat) :
          (components ⟨.above steps, []⟩).reverse = List.replicate steps .up := by
        simp [components, Base.components]
      rcases base with _ | steps
      · rfl
      · rw [Reading.step, upward, upward]
        cases steps <;> rfl

theorem foldl_collapseStep_components (reading : Reading) {steps : List Component}
    (rootless : .root ∉ steps) : steps.foldl collapseStep reading.components.reverse =
      (steps.foldl step reading).components.reverse := by
  induction steps generalizing reading with
  | nil => rfl
  | cons first rest inductionHypothesis =>
    obtain ⟨notFirst, notRest⟩ := List.ne_and_not_mem_of_not_mem_cons rootless
    rw [List.foldl_cons, List.foldl_cons, reading.collapseStep_components (Ne.symm notFirst),
      inductionHypothesis _ notRest]

/-- Names and steps up do not lead to the root or away from it. -/
theorem base_step {reading : Reading} {step : Component} (notRoot : step ≠ .root) :
    (reading.step step).base = .root ↔ reading.base = .root := by
  obtain ⟨base, names⟩ := reading
  cases step with
  | root => exact absurd rfl notRoot
  | here => rfl
  | name text => rfl
  | up => cases names <;> cases base <;> simp [Reading.step]

theorem base_foldl_step (reading : Reading) {steps : List Component} (rootless : .root ∉ steps) :
    (steps.foldl step reading).base = .root ↔ reading.base = .root := by
  induction steps generalizing reading with
  | nil => rfl
  | cons first rest inductionHypothesis =>
    obtain ⟨notFirst, notRest⟩ := List.ne_and_not_mem_of_not_mem_cons rootless
    rw [List.foldl_cons, inductionHypothesis _ notRest, base_step (Ne.symm notFirst)]

end Reading

/-! ### Where a path comes to -/

/-- The steps that are written between the slashes of a path. -/
def parts (path : Path) : List Component :=
  (Text.splitOn (· == '/') path.text.toList).filterMap Component.ofPart?

/-- Where a path starts. -/
def origin (path : Path) : Reading :=
  if path.isAbsolute then ⟨.root, []⟩ else .start

/-- The place that a path comes to. -/
def reading (path : Path) : Reading :=
  path.components.foldl Reading.step .start

theorem reading_eq (path : Path) : path.reading = path.parts.foldl Reading.step path.origin := by
  rw [reading, components, origin]
  by_cases absolute : path.isAbsolute
  · rw [if_pos absolute, if_pos absolute]
    rfl
  · rw [if_neg absolute, if_neg absolute]
    split <;> rfl

theorem root_notMem_parts (path : Path) : .root ∉ path.parts := by
  rintro member
  obtain ⟨part, isPiece, read⟩ := List.mem_filterMap.mp member
  exact (Component.isPart_of_ofPart? read fun char => Text.free_of_mem_splitOn isPiece char).ne_root rfl

/-- A path starts at the root exactly if that is the base of the place it comes to. -/
theorem isAbsolute_iff (path : Path) : path.isAbsolute ↔ path.reading.base = .root := by
  rw [reading_eq, Reading.base_foldl_step _ path.root_notMem_parts, origin]
  by_cases absolute : path.isAbsolute <;> simp [absolute, Reading.start]

/-- What remains of a path's steps are the steps to the place that it comes to. -/
theorem collapse_components (path : Path) : collapse path.components = path.reading.components := by
  have kept : path.components.foldl collapseStep [] =
      path.parts.foldl collapseStep path.origin.components.reverse := by
    rw [components, origin]
    by_cases absolute : path.isAbsolute
    · rw [if_pos absolute, if_pos absolute]
      rfl
    · rw [if_neg absolute, if_neg absolute]
      split <;> rfl
  rw [collapse, kept, Reading.foldl_collapseStep_components _ path.root_notMem_parts,
    List.reverse_reverse, reading_eq]

theorem components_normalize_eq (path : Path) :
    path.normalize.components = path.reading.components := by
  rw [components_normalize, collapse_components]

/-- A normal form comes to the place of its path. -/
theorem reading_normalize (path : Path) : path.normalize.reading = path.reading := by
  rw [reading, components_normalize_eq, Reading.foldl_step_components]

theorem normalize_eq_iff {first second : Path} :
    first.normalize = second.normalize ↔ first.reading = second.reading := by
  constructor
  · intro same
    rw [← reading_normalize, same, reading_normalize]
  · intro same
    rw [normalize, normalize, collapse_components, collapse_components, same]

/-! ### Joining -/

/-- A slash between two paths parts their steps. -/
theorem parts_append_slash (base rest : String) :
    (⟨base ++ "/" ++ rest⟩ : Path).parts = (⟨base⟩ : Path).parts ++ (⟨rest⟩ : Path).parts := by
  have slash : (base ++ "/" ++ rest).toList = base.toList ++ '/' :: rest.toList := by simp
  rw [parts, slash, Text.splitOn_append_cons rfl, List.filterMap_append]
  rfl

/-- A slash at the end adds no step. -/
theorem parts_concat_slash (base : String) :
    (⟨base ++ "/"⟩ : Path).parts = (⟨base⟩ : Path).parts := by
  have whole := parts_append_slash base ""
  rwa [String.append_empty, show (⟨""⟩ : Path).parts = [] from rfl, List.append_nil] at whole

theorem parts_join (base : Path) {rest : Path} (relative : rest.isAbsolute = false) :
    (base.join rest).parts = base.parts ++ rest.parts := by
  rw [join, relative, Bool.false_or]
  split
  · next empty =>
    have nothing : base = ⟨""⟩ := congrArg Path.mk (by simpa using empty)
    rw [nothing]
    rfl
  · split
    · next ended =>
      obtain ⟨front, whole⟩ : ∃ front, base.text = front ++ "/" := by
        obtain ⟨front, whole⟩ := List.getLast?_eq_some_iff.mp ended
        exact ⟨String.ofList front, by rw [← String.toList_inj]; simpa using whole⟩
      rw [show base = ⟨front ++ "/"⟩ from congrArg Path.mk whole, parts_append_slash,
        parts_concat_slash]
    · exact parts_append_slash base.text rest.text

theorem isAbsolute_join (base : Path) {rest : Path} (relative : rest.isAbsolute = false) :
    (base.join rest).isAbsolute = base.isAbsolute := by
  rw [join, relative, Bool.false_or]
  split
  · next empty =>
    have nothing : base = ⟨""⟩ := congrArg Path.mk (by simpa using empty)
    rw [nothing, relative]
    rfl
  · next some =>
    have starts (tail : String) : (⟨base.text ++ tail⟩ : Path).isAbsolute = base.isAbsolute := by
      have more : base.text.toList ≠ [] := by simpa using some
      rw [isAbsolute, isAbsolute, String.toList_append, List.head?_append,
        Option.or_of_isSome (List.isSome_head?.mpr more)]
    split
    · exact starts rest.text
    · rw [String.append_assoc]
      exact starts ("/" ++ rest.text)

theorem join_of_isAbsolute (base : Path) {rest : Path} (absolute : rest.isAbsolute = true) :
    base.join rest = rest := by
  rw [join, absolute, Bool.true_or, if_pos rfl]

/-- Reading goes on from the place that the base comes to. -/
theorem reading_join (base : Path) {rest : Path} (relative : rest.isAbsolute = false) :
    (base.join rest).reading = rest.parts.foldl Reading.step base.reading := by
  rw [reading_eq, reading_eq, parts_join base relative, List.foldl_append, origin, origin,
    isAbsolute_join base relative]

/-- So the normal form of a base may take its place. -/
theorem normalize_join (base rest : Path) :
    (base.join rest).normalize = (base.normalize.join rest).normalize := by
  by_cases absolute : rest.isAbsolute
  · rw [join_of_isAbsolute base absolute, join_of_isAbsolute base.normalize absolute]
  · have relative : rest.isAbsolute = false := by simpa using absolute
    rw [normalize_eq_iff, reading_join base relative, reading_join base.normalize relative,
      reading_normalize]

/-! ### Normal forms -/

theorem isAbsolute_normalize (path : Path) : path.normalize.isAbsolute = path.isAbsolute := by
  rw [Bool.eq_iff_iff, isAbsolute_iff, isAbsolute_iff, reading_normalize]

/-- Normal forms are canonical. They have no dots, steps up only at the start of a relative path,
and the plainest spelling. They are absolute exactly if their path is, are their own normal forms,
and may take the place of their path before another one is put behind it. Two paths have the same
normal form exactly if reading them from the left comes to the same steps. -/
theorem normalize_canonical (path : Path) :
    .here ∉ path.normalize.components ∧
      (∀ before after, path.normalize.components = before ++ .up :: after →
        ∀ step ∈ before, step = .up) ∧
      path.normalize.plain = path.normalize ∧
      path.normalize.isAbsolute = path.isAbsolute ∧
      path.normalize.normalize.text = path.normalize.text ∧
      (∀ rest : Path, (path.join rest).normalize = (path.normalize.join rest).normalize) ∧
      ∀ other : Path, path.normalize = other.normalize ↔
        path.reading.components = other.reading.components := by
  refine ⟨?_, fun before after whole => ?_, ?_, path.isAbsolute_normalize, ?_, path.normalize_join,
    fun other => ?_⟩
  · rw [components_normalize_eq]
    exact path.reading.here_notMem_components
  · rw [components_normalize_eq] at whole
    exact Reading.eq_up_of_components whole
  · rw [plain, components_normalize]
    rfl
  · rw [normalize_normalize]
  · rw [normalize_eq_iff, Reading.components_inj]

end PomLens.Path
