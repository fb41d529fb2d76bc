/-
This file shows that a registry is a map with its keys in order, after any run of operations.

`Does` says what an operation does to the list of projects and what it gives back, without the
functions that do it. Of the keys it follows that an operation drops those that it removes and adds
at most one at the end (`keys_of_does`). What stands in the registry is then told by the history
alone: a path is a key since the first operation that registered it after the last one that removed
it (`StandsSince`), and the keys stand in the order of these times.
-/

import Mathlib.Data.List.Induction
import Mathlib.Data.List.Nodup
import PomLens.Proofs.Workspace.Linking
import PomLens.Session

namespace PomLens

namespace Workspace

/-! ### Operations -/

/-- What is done with a registry. -/
inductive Operation
  /-- Registers a project that was made for a path, whatever is known of it by now. -/
  | insert (project : Project) (made : ∃ path, project.path = (Project.new path).path)
  | add (files : FileTree) (path : Path)
  | remove (path : Path)
  | removeUnder (folder : Path)
  /-- A session comes to the project of a document. -/
  | register (path : Path)
  /-- A session takes up a new text of a document. -/
  | takeUp (document : Document)

/-- What an operation gives back. -/
inductive Answer
  /-- The project that it took out of the registry, if there was one. -/
  | taken (project : Option Project)
  /-- The project that is registered now. -/
  | registered (project : Project)
  /-- How many projects it took out. -/
  | count (number : Nat)
  /-- What reading the text came to. -/
  | read (result : Except ProjectError Unit)

namespace Operation

/-- The path that an operation registers a project at. -/
def key? : Operation → Option Path
  | insert project _ => some project.path
  | add _ path | register path => some path.normalize
  | takeUp document => some document.path.normalize
  | remove _ | removeUnder _ => none

/-- The operation takes out what is registered at a path. -/
def Removes : Operation → Path → Prop
  | remove other, path => path = other.normalize
  | removeUnder folder, path => folder.normalize.components <+: path.components
  | _, _ => False

instance : (operation : Operation) → (path : Path) → Decidable (operation.Removes path)
  | remove other, path => inferInstanceAs (Decidable (path = other.normalize))
  | removeUnder folder, path =>
    inferInstanceAs (Decidable (folder.normalize.components <+: path.components))
  | insert _ _, _ | add _ _, _ | register _, _ | takeUp _, _ =>
    inferInstanceAs (Decidable False)

theorem not_removes_of_key? {operation : Operation} {key path : Path}
    (isKey : operation.key? = some key) : ¬ operation.Removes path := by
  cases operation with
  | remove | removeUnder => cases isKey
  | insert | add | register | takeUp => exact id

theorem normalize_of_key? {operation : Operation} {key : Path}
    (isKey : operation.key? = some key) : key.normalize = key := by
  cases operation with
  | insert project made =>
    obtain ⟨path, isPath⟩ := made
    cases isKey
    rw [isPath]
    exact path.normalize_normalize
  | add | register | takeUp =>
    cases isKey
    exact Path.normalize_normalize _
  | remove | removeUnder => cases isKey

end Operation

/-- Does an operation on the workspace that a session shares, and gives its answer. -/
def perform (desk : Desk) : Operation → Desk × Answer
  | .insert project _ => (desk.workspace.insert project).map ({ desk with workspace := · }) .taken
  | .add files path =>
    (desk.workspace.add files path).map ({ desk with workspace := · }) .registered
  | .remove path => (desk.workspace.remove path).map ({ desk with workspace := · }) .taken
  | .removeUnder folder =>
    (desk.workspace.removeUnder folder).map ({ desk with workspace := · }) .count
  | .register path => (desk.register path).map id .registered
  | .takeUp document => (desk.takeUp document).map id fun (_, result) => .read result

/-- The desk when operations were done one after another, in a workspace that was empty. -/
def run (desk : Desk) (operations : List Operation) : Desk :=
  operations.foldl (fun desk operation => (perform desk operation).1)
    { desk with workspace := .empty }

theorem run_append (desk : Desk) (operations : List Operation) (last : Operation) :
    run desk (operations ++ [last]) = (perform (run desk operations) last).1 := by
  rw [run, List.foldl_append]
  rfl

/-! ### What an operation does -/

/-- Registering a project puts it in the place of the one at its path, or at the end. -/
inductive Places (before : List Project) (added : Project) : Option Project → List Project → Prop
  | replaced {old : Project} {front back : List Project} (stood : before = front ++ old :: back)
    (same : old.path = added.path) : Places before added (some old) (front ++ added :: back)
  | appended (absent : added.path ∉ before.map Project.path) :
    Places before added none (before ++ [added])

/-- What an operation does to the projects, in their order, and what it gives back. -/
inductive Does (before : List Project) : Operation → Answer → List Project → Prop
  | insert {project : Project} {made : ∃ path, project.path = (Project.new path).path}
    {old : Option Project} {after : List Project} (places : Places before project old after) :
    Does before (.insert project made) (.taken old) after
  | add {files : FileTree} {path : Path} {old : Option Project} {after : List Project}
    (places : Places before (.fromDisk files path) old after) :
    Does before (.add files path) (.registered (.fromDisk files path)) after
  | remove {path : Path} {old : Project} {front back : List Project}
    (stood : before = front ++ old :: back) (isPath : old.path = path.normalize) :
    Does before (.remove path) (.taken (some old)) (front ++ back)
  | removeNothing {path : Path} (absent : path.normalize ∉ before.map Project.path) :
    Does before (.remove path) (.taken none) before
  | removeUnder {folder : Path} {number : Nat} {after : List Project}
    (kept : after = before.filter fun project =>
      ¬ folder.normalize.components <+: project.path.components)
    (counted : number + after.length = before.length) :
    Does before (.removeUnder folder) (.count number) after
  | find {path : Path} {project : Project} (registered : project ∈ before)
    (isPath : project.path = path.normalize) :
    Does before (.register path) (.registered project) before
  | register {path : Path} {after : List Project}
    (places : Places before (Project.new path) none after) :
    Does before (.register path) (.registered (Project.new path)) after
  | takeUp {document : Document} {known project : Project} {result : Except ProjectError Unit}
    {old : Option Project} {after : List Project}
    (isKnown : (known ∈ before ∧ known.path = document.path.normalize) ∨
      (known = Project.new document.path ∧
        document.path.normalize ∉ before.map Project.path))
    (read : known.parseDeclared document.text = (project, result))
    (places : Places before project old after) :
    Does before (.takeUp document) (.read result) after

/-- The paths of the projects are normal forms, and no two of them are the same. -/
structure Keyed (workspace : Workspace) : Prop where
  normal : ∀ path ∈ workspace.paths, path.normalize = path
  distinct : workspace.paths.Nodup

section

variable {workspace : Workspace}

theorem places_insert (workspace : Workspace) (project : Project) :
    Places workspace.projects project (workspace.insert project).2
      (workspace.insert project).1.projects := by
  simp only [insert]
  cases found : workspace.projects.find? fun other => other.path == project.path with
  | none =>
    have others : ∀ other ∈ workspace.projects, other.path ≠ project.path := by
      simpa using found
    rw [place_of_unregistered others]
    refine .appended fun member => ?_
    obtain ⟨other, isOther, same⟩ := List.mem_map.mp member
    exact others other isOther same
  | some old =>
    obtain ⟨isPath, front, back, stands, others⟩ := List.find?_eq_some_iff_append.mp found
    have same : old.path = project.path := beq_iff_eq.mp isPath
    rw [stands, place_append back (by simpa using others) same]
    exact .replaced rfl same

/-- No other project has the path of one that is taken out. -/
theorem filter_path_ne {front back : List Project} {old : Project}
    (distinct : ((front ++ old :: back).map Project.path).Nodup) :
    ((front ++ old :: back).filter fun project => project.path ≠ old.path) = front ++ back := by
  rw [List.map_append, List.map_cons] at distinct
  obtain ⟨-, behind, apart⟩ := List.nodup_append.mp distinct
  rw [List.filter_append, List.filter_cons_of_neg (by simp)]
  congr 1
  · refine List.filter_eq_self.mpr fun project member => decide_eq_true ?_
    exact apart project.path (List.mem_map_of_mem member) old.path List.mem_cons_self
  · refine List.filter_eq_self.mpr fun project member => decide_eq_true fun same => ?_
    exact (List.nodup_cons.mp behind).1 (same ▸ List.mem_map_of_mem member)

theorem does_remove (keyed : workspace.Keyed) (path : Path) :
    Does workspace.projects (.remove path) (.taken (workspace.remove path).2)
      (workspace.remove path).1.projects := by
  have taken : (workspace.remove path).2 = workspace.get? path := rfl
  rw [taken]
  cases found : workspace.get? path with
  | none =>
    rw [get?_eq_none_iff] at found
    have others : (workspace.remove path).1.projects = workspace.projects :=
      List.filter_eq_self.mpr fun project member =>
        decide_eq_true fun same => found (same ▸ List.mem_map_of_mem member)
    rw [others]
    exact .removeNothing found
  | some old =>
    obtain ⟨-, front, back, stands, -⟩ := List.find?_eq_some_iff_append.mp found
    have isPath : old.path = path.normalize := path_of_get? found
    have distinct := keyed.distinct
    rw [paths, stands] at distinct
    rw [remove, ← isPath]
    simp only
    rw [stands, filter_path_ne distinct]
    exact .remove rfl isPath

theorem does_removeUnder (workspace : Workspace) (folder : Path) :
    Does workspace.projects (.removeUnder folder) (.count (workspace.removeUnder folder).2)
      (workspace.removeUnder folder).1.projects := by
  refine .removeUnder ?_ ?_
  · rw [removeUnder]
    refine List.filter_congr fun project _ => ?_
    rw [Path.startsWith, Bool.eq_iff_iff, Bool.not_eq_true', decide_eq_true_iff,
      ← List.isPrefixOf_iff_prefix, Bool.not_eq_true]
  · exact Nat.sub_add_cancel (List.length_filter_le _ _)

/-- A project that is registered twice in a row stands where it was put first. -/
theorem places_insert_insert (workspace : Workspace) {first second : Project}
    (absent : first.path ∉ workspace.paths) (same : second.path = first.path) :
    Places workspace.projects second none ((workspace.insert first).1.insert second).1.projects := by
  have others : ∀ project ∈ workspace.projects, project.path ≠ first.path :=
    fun project member isFirst => absent (isFirst ▸ List.mem_map_of_mem member)
  have put : (workspace.insert first).1.projects = workspace.projects ++ [first] :=
    place_of_unregistered others
  rw [insert, put, place_append [] (same ▸ others) same.symm]
  exact .appended (same ▸ absent)

theorem does_takeUp (desk : Desk) (document : Document) :
    Does desk.workspace.projects (.takeUp document) (.read (desk.takeUp document).2.2)
      (desk.takeUp document).1.workspace.projects := by
  cases found : desk.workspace.get? document.path with
  | none =>
    have absent := get?_eq_none_iff.mp found
    rw [Desk.takeUp, Desk.register, found]
    exact .takeUp (Or.inr ⟨rfl, absent⟩) rfl (desk.workspace.places_insert_insert absent
      ((Project.new document.path).path_parseDeclared document.text))
  | some known =>
    rw [Desk.takeUp, Desk.register, found]
    exact .takeUp (Or.inl ⟨mem_of_get? found, path_of_get? found⟩) rfl (places_insert _ _)

theorem does_perform {desk : Desk} (keyed : desk.workspace.Keyed) (operation : Operation) :
    Does desk.workspace.projects operation (perform desk operation).2
      (perform desk operation).1.workspace.projects := by
  cases operation with
  | insert project made => exact .insert (places_insert _ project)
  | add files path => exact .add (places_insert _ (.fromDisk files path))
  | remove path => exact does_remove keyed path
  | removeUnder folder => exact does_removeUnder desk.workspace folder
  | register path =>
    rw [perform, Desk.register]
    cases found : desk.workspace.get? path with
    | some project => exact .find (mem_of_get? found) (path_of_get? found)
    | none =>
      have places := desk.workspace.places_insert (Project.new path)
      have absent : (desk.workspace.insert (Project.new path)).2 = none := found
      rw [absent] at places
      exact .register places
  | takeUp document => exact does_takeUp desk document

end

/-! ### What becomes of the keys -/

section

variable {before after : List Project} {operation : Operation} {answer : Answer}

theorem Places.keys {added : Project} {old : Option Project} (places : Places before added old after) :
    after.map Project.path = before.map Project.path ++
      [added.path].filter (· ∉ before.map Project.path) := by
  cases places with
  | replaced stood same =>
    rw [List.filter_cons_of_neg (by simp [stood, same]), List.filter_nil, List.append_nil, stood]
    simp [same]
  | appended absent =>
    have added : [added.path].filter (· ∉ before.map Project.path) = [added.path] :=
      List.filter_eq_self.mpr fun path member =>
        decide_eq_true (List.mem_singleton.mp member ▸ absent)
    rw [added, List.map_append, List.map_singleton]

/-- The keys that an operation removes are dropped, and the one that it registers is added at the
end if it is new. -/
theorem keys_of_does (distinct : (before.map Project.path).Nodup)
    (does : Does before operation answer after) :
    after.map Project.path =
      (before.map Project.path).filter (fun path => ¬ operation.Removes path) ++
        operation.key?.toList.filter (· ∉ before.map Project.path) := by
  have kept {paths : List Path} (others : ∀ path ∈ paths, ¬ operation.Removes path) :
      paths.filter (fun path => ¬ operation.Removes path) = paths :=
    List.filter_eq_self.mpr fun path member => decide_eq_true (others path member)
  cases does with
  | insert places => rw [places.keys, kept fun path _ => id]; rfl
  | add places => rw [places.keys, Project.path_fromDisk, kept fun path _ => id]; rfl
  | register places => rw [places.keys, kept fun path _ => id]; rfl
  | @takeUp document known project result old after isKnown read places =>
    have isPath : project.path = document.path.normalize := by
      have isKnownPath : project.path = known.path := by
        rw [← known.path_parseDeclared document.text, read]
      rcases isKnown with ⟨-, isPath⟩ | ⟨rfl, -⟩
      · exact isKnownPath.trans isPath
      · exact isKnownPath
    rw [places.keys, isPath, kept fun path _ => id]
    rfl
  | find registered isPath =>
    have known := List.mem_map_of_mem (f := Project.path) registered
    rw [isPath] at known
    rw [kept fun path _ => id, Operation.key?, Option.toList_some,
      List.filter_cons_of_neg (by simpa only [decide_eq_true_eq, not_not] using known),
      List.filter_nil, List.append_nil]
  | remove stood isPath =>
    rw [stood] at distinct ⊢
    rw [List.filter_map, ← filter_path_ne distinct, isPath]
    simp only [Operation.key?, Option.toList_none, List.filter_nil, List.append_nil]
    rfl
  | removeNothing absent =>
    rw [kept fun path member same => absent (same ▸ member)]
    simp [Operation.key?]
  | removeUnder keeps counted =>
    rw [keeps, List.filter_map]
    simp only [Operation.key?, Option.toList_none, List.filter_nil, List.append_nil]
    rfl

end

/-! ### Times -/

/-- The time of the operation since which a path stands in the registry: it registered the path, no
later one has removed it, and each earlier registration was followed by a removal. -/
structure StandsSince (operations : List Operation) (path : Path) (time : Nat) : Prop where
  registered : ∃ operation, operations[time]? = some operation ∧ operation.key? = some path
  kept : ∀ later operation, time < later → operations[later]? = some operation →
    ¬ operation.Removes path
  first : ∀ earlier operation, earlier < time → operations[earlier]? = some operation →
    operation.key? = some path →
    ∃ between removal, earlier < between ∧ between < time ∧
      operations[between]? = some removal ∧ removal.Removes path

section

variable {operations : List Operation} {last : Operation} {path : Path} {time : Nat}

theorem StandsSince.lt (stands : StandsSince operations path time) : time < operations.length := by
  obtain ⟨operation, isThere, -⟩ := stands.registered
  exact (List.getElem?_eq_some_iff.mp isThere).1

/-- A path that was registered and not removed stands since some time. -/
theorem exists_standsSince {operation : Operation} (isThere : operations[time]? = some operation)
    (isKey : operation.key? = some path)
    (kept : ∀ later operation, time < later → operations[later]? = some operation →
      ¬ operation.Removes path) : ∃ time, StandsSince operations path time := by
  induction time using Nat.strongRecOn generalizing operation with
  | ind time inductionHypothesis =>
    by_cases first : ∀ earlier operation, earlier < time → operations[earlier]? = some operation →
      operation.key? = some path → ∃ between removal, earlier < between ∧ between < time ∧
        operations[between]? = some removal ∧ removal.Removes path
    · exact ⟨time, ⟨operation, isThere, isKey⟩, kept, first⟩
    · -- An earlier registration that was not followed by a removal until now is not at all.
      push Not at first
      obtain ⟨earlier, other, before, isOther, otherKey, unremoved⟩ := first
      refine inductionHypothesis earlier before isOther otherKey ?_
      intro later removal after isRemoval removes
      rcases Nat.lt_trichotomy later time with between | rfl | behind
      · exact unremoved later removal after between isRemoval removes
      · rw [isThere] at isRemoval
        cases isRemoval
        exact Operation.not_removes_of_key? isKey removes
      · exact kept later removal behind isRemoval removes

theorem getElem?_further_iff {index : Nat} {operation : Operation} :
    (operations ++ [last])[index]? = some operation ↔
      operations[index]? = some operation ∨ (index = operations.length ∧ operation = last) := by
  rcases Nat.lt_trichotomy index operations.length with within | rfl | behind
  · rw [List.getElem?_append_left within]
    simp [Nat.ne_of_lt within]
  · simp [eq_comm]
  · have beyond : (operations ++ [last]).length ≤ index := by
      rw [List.length_append]
      exact behind
    rw [List.getElem?_eq_none beyond, List.getElem?_eq_none behind.le]
    simp [Nat.ne_of_gt behind]

/-- A path that stands goes on to stand if the next operation does not remove it. -/
theorem StandsSince.further (stands : StandsSince operations path time)
    (kept : ¬ last.Removes path) : StandsSince (operations ++ [last]) path time where
  registered := by
    obtain ⟨operation, isThere, isKey⟩ := stands.registered
    exact ⟨operation, getElem?_further_iff.mpr (Or.inl isThere), isKey⟩
  kept later operation after isThere := by
    rcases getElem?_further_iff.mp isThere with before | ⟨-, rfl⟩
    · exact stands.kept later operation after before
    · exact kept
  first earlier operation before isThere isKey := by
    rcases getElem?_further_iff.mp isThere with isEarlier | ⟨rfl, -⟩
    · obtain ⟨between, removal, above, below, isRemoval, removes⟩ :=
        stands.first earlier operation before isEarlier isKey
      exact ⟨between, removal, above, below, getElem?_further_iff.mpr (Or.inl isRemoval), removes⟩
    · exact absurd before stands.lt.asymm

/-- A path that does not stand begins to when an operation registers it. -/
theorem standsSince_length (isKey : last.key? = some path)
    (absent : ∀ other, ¬ StandsSince operations path other) :
    StandsSince (operations ++ [last]) path operations.length where
  registered := ⟨last, getElem?_further_iff.mpr (Or.inr ⟨rfl, rfl⟩), isKey⟩
  kept later operation after isThere := by
    rcases getElem?_further_iff.mp isThere with before | ⟨rfl, -⟩
    · exact absurd (List.getElem?_eq_some_iff.mp before).1 after.asymm
    · exact absurd after (Nat.lt_irrefl _)
  first earlier operation before isThere earlierKey := by
    have isEarlier : operations[earlier]? = some operation := by
      rwa [List.getElem?_append_left before] at isThere
    by_contra unremoved
    push Not at unremoved
    obtain ⟨time, stands⟩ := exists_standsSince isEarlier earlierKey
      fun later removal after isRemoval =>
        unremoved later removal after (List.getElem?_eq_some_iff.mp isRemoval).1
          (getElem?_further_iff.mpr (Or.inl isRemoval))
    exact absent time stands

/-- A further operation ends what it removes, and begins what it registers anew. -/
theorem standsSince_further_iff :
    StandsSince (operations ++ [last]) path time ↔
      (StandsSince operations path time ∧ ¬ last.Removes path) ∨
        (time = operations.length ∧ last.key? = some path ∧
          ∀ other, ¬ StandsSince operations path other) := by
  constructor
  · intro stands
    obtain ⟨operation, isThere, isKey⟩ := stands.registered
    rcases getElem?_further_iff.mp isThere with before | ⟨rfl, rfl⟩
    · have within := (List.getElem?_eq_some_iff.mp before).1
      refine Or.inl ⟨⟨⟨operation, before, isKey⟩, ?_, ?_⟩, ?_⟩
      · exact fun later other after isOther =>
          stands.kept later other after (getElem?_further_iff.mpr (Or.inl isOther))
      · intro earlier other under isOther otherKey
        obtain ⟨between, removal, above, below, isRemoval, removes⟩ :=
          stands.first earlier other under (getElem?_further_iff.mpr (Or.inl isOther)) otherKey
        rw [List.getElem?_append_left (below.trans within)] at isRemoval
        exact ⟨between, removal, above, below, isRemoval, removes⟩
      · exact stands.kept operations.length last within (getElem?_further_iff.mpr (Or.inr ⟨rfl, rfl⟩))
    · refine Or.inr ⟨rfl, isKey, fun other stood => ?_⟩
      -- Had it stood before, this would not be the first registration.
      obtain ⟨earlier, isEarlier, earlierKey⟩ := stood.registered
      obtain ⟨between, removal, above, below, isRemoval, removes⟩ := stands.first other earlier
        stood.lt (getElem?_further_iff.mpr (Or.inl isEarlier)) earlierKey
      rw [List.getElem?_append_left below] at isRemoval
      exact stood.kept between removal above isRemoval removes
  · rintro (⟨stands, kept⟩ | ⟨rfl, isKey, absent⟩)
    · exact stands.further kept
    · exact standsSince_length isKey absent

end

/-! ### Keys in the order of their times -/

/-- Paths are told by the history of operations: each stands since some time, and they are in the
order of these times. -/
structure Recorded (operations : List Operation) (keys : List Path) : Prop where
  stands : ∀ path, path ∈ keys ↔ ∃ time, StandsSince operations path time
  ordered : keys.Pairwise fun first second => ∀ earlier later,
    StandsSince operations first earlier → StandsSince operations second later → earlier < later

theorem recorded_nil : Recorded [] [] where
  stands path := by
    constructor
    · intro member
      cases member
    · rintro ⟨time, stands⟩
      exact absurd stands.lt (Nat.not_lt_zero time)
  ordered := List.Pairwise.nil

namespace Recorded

variable {operations : List Operation} {last : Operation} {keys : List Path} {path : Path}
  {time : Nat} (recorded : Recorded operations keys)

include recorded

theorem absent (unlisted : path ∉ keys) : ∀ time, ¬ StandsSince operations path time :=
  fun time stands => unlisted ((recorded.stands path).mpr ⟨time, stands⟩)

/-- A key keeps its time. -/
theorem stood (member : path ∈ keys) (stands : StandsSince (operations ++ [last]) path time) :
    StandsSince operations path time := by
  rcases standsSince_further_iff.mp stands with ⟨stood, -⟩ | ⟨-, -, absent⟩
  · exact stood
  · obtain ⟨other, stood⟩ := (recorded.stands path).mp member
    exact absurd stood (absent other)

/-- A new key stands since the last operation. -/
theorem time_eq_length (unlisted : path ∉ keys)
    (stands : StandsSince (operations ++ [last]) path time) : time = operations.length := by
  rcases standsSince_further_iff.mp stands with ⟨stood, -⟩ | ⟨isLast, -, -⟩
  · exact absurd stood (recorded.absent unlisted time)
  · exact isLast

/-- The keys that an operation leaves are told by the history with it. -/
theorem further (last : Operation) :
    Recorded (operations ++ [last]) (keys.filter (fun path => ¬ last.Removes path) ++
      last.key?.toList.filter (· ∉ keys)) where
  stands path := by
    rw [List.mem_append, List.mem_filter, List.mem_filter, Option.mem_toList, decide_eq_true_iff,
      decide_eq_true_iff]
    constructor
    · rintro (⟨member, kept⟩ | ⟨isKey, unlisted⟩)
      · obtain ⟨time, stands⟩ := (recorded.stands path).mp member
        exact ⟨time, stands.further kept⟩
      · exact ⟨operations.length, standsSince_length isKey (recorded.absent unlisted)⟩
    · rintro ⟨time, stands⟩
      rcases standsSince_further_iff.mp stands with ⟨stood, kept⟩ | ⟨-, isKey, absent⟩
      · exact Or.inl ⟨(recorded.stands path).mpr ⟨time, stood⟩, kept⟩
      · refine Or.inr ⟨isKey, fun member => ?_⟩
        obtain ⟨other, stood⟩ := (recorded.stands path).mp member
        exact absent other stood
  ordered := by
    refine List.pairwise_append.mpr ⟨?_, ?_, ?_⟩
    · refine (recorded.ordered.filter _).imp_of_mem fun isFirst isSecond before => ?_
      intro earlier later stands follows
      exact before earlier later (recorded.stood (List.mem_filter.mp isFirst).1 stands)
        (recorded.stood (List.mem_filter.mp isSecond).1 follows)
    · refine List.Pairwise.filter _ ?_
      cases last.key? with
      | none => exact .nil
      | some key => exact List.pairwise_singleton _ key
    · intro first isFirst second isSecond earlier later stands follows
      have unlisted : second ∉ keys := of_decide_eq_true (List.mem_filter.mp isSecond).2
      rw [recorded.time_eq_length unlisted follows]
      exact (recorded.stood (List.mem_filter.mp isFirst).1 stands).lt

end Recorded

/-! ### Runs -/

theorem keyed_empty : Workspace.empty.Keyed :=
  ⟨by simp [paths, empty], List.nodup_nil⟩

theorem Keyed.perform {desk : Desk} (keyed : desk.workspace.Keyed) (operation : Operation) :
    (perform desk operation).1.workspace.Keyed := by
  have keys := keys_of_does keyed.distinct (does_perform keyed operation)
  constructor
  · intro path member
    rw [paths, keys, List.mem_append, List.mem_filter, List.mem_filter, Option.mem_toList] at member
    rcases member with ⟨known, -⟩ | ⟨isKey, -⟩
    · exact keyed.normal path known
    · exact Operation.normalize_of_key? isKey
  · rw [paths, keys]
    refine List.nodup_append.mpr ⟨keyed.distinct.filter _, ?_, ?_⟩
    · refine List.Nodup.filter _ ?_
      cases operation.key? with
      | none => exact List.nodup_nil
      | some key => exact List.nodup_singleton key
    · rintro path isOld other isNew rfl
      exact of_decide_eq_true (List.mem_filter.mp isNew).2 (List.mem_filter.mp isOld).1

theorem keyed_run (desk : Desk) (operations : List Operation) :
    (run desk operations).workspace.Keyed := by
  induction operations using List.reverseRecOn with
  | nil => exact keyed_empty
  | append_singleton operations last inductionHypothesis =>
    rw [run_append]
    exact inductionHypothesis.perform last

theorem recorded_run (desk : Desk) (operations : List Operation) :
    Recorded operations (run desk operations).workspace.paths := by
  induction operations using List.reverseRecOn with
  | nil => exact recorded_nil
  | append_singleton operations last inductionHypothesis =>
    have keyed := keyed_run desk operations
    rw [run_append, paths, keys_of_does keyed.distinct (does_perform keyed last)]
    exact inductionHypothesis.further last

theorem get?_eq_some_iff {workspace : Workspace} (keyed : workspace.Keyed) {path : Path}
    {project : Project} :
    workspace.get? path = some project ↔
      project ∈ workspace.projects ∧ project.path = path.normalize := by
  refine ⟨fun found => ⟨mem_of_get? found, path_of_get? found⟩, fun ⟨member, isPath⟩ => ?_⟩
  have registered : (workspace.get? path).isSome := by
    rw [Option.isSome_iff_ne_none, Ne, get?_eq_none_iff, not_not, ← isPath]
    exact List.mem_map_of_mem member
  obtain ⟨other, found⟩ := Option.isSome_iff_exists.mp registered
  have same : other.path = project.path := (path_of_get? found).trans isPath.symm
  rw [found, List.inj_on_of_nodup_map keyed.distinct (mem_of_get? found) member same]

/-- Whatever was done with a workspace, its projects are a map: each is kept once, under the normal
form of its path, and found under every spelling of it. The keys stand in the order in which they
were registered since they were last removed, and every operation does to this list what it
should. -/
theorem map_of_run (desk : Desk) (operations : List Operation) :
    (run desk operations).workspace.Keyed ∧
      (∀ path project, (run desk operations).workspace.get? path = some project ↔
        project ∈ (run desk operations).workspace.projects ∧ project.path = path.normalize) ∧
      Recorded operations (run desk operations).workspace.paths ∧
      ∀ operation, Does (run desk operations).workspace.projects operation
        (perform (run desk operations) operation).2
        (perform (run desk operations) operation).1.workspace.projects := by
  have keyed := keyed_run desk operations
  exact ⟨keyed, fun path project => get?_eq_some_iff keyed, recorded_run desk operations,
    does_perform keyed⟩

end Workspace

end PomLens
