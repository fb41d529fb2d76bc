/-
This file proves in what order the versions of an artifact are listed.

The report may name a version at many places and under several spellings that count as equal. The
list has each spelling once, at the first place where the report has it (`ordered_distinct`), and is
then sorted. Since versions are in a total preorder and the sort is stable, newer ones come first,
and equal ones as the report first names them (`newestFirst_versionsInTree`).
-/

import Mathlib
import PomLens.Project
import PomLens.Proofs.Version.Order

namespace PomLens

/-- The versions that a report names for an artifact, in its order. -/
def Report.Forest.versionsOf (forest : Report.Forest) (key : ArtifactKey) : List String :=
  (forest.nodes.toList.filter fun node => node.entry.key == key).map fun node => node.entry.version

/-- Each reported version is listed once, the newest first. Those that count as equal are listed in
the order in which they were first reported. -/
structure NewestFirst (reported listed : List String) : Prop where
  once : listed.Nodup
  mem_iff : ∀ version, version ∈ listed ↔ version ∈ reported
  newest : listed.Pairwise fun earlier later => Version.compare later earlier ≠ .gt
  stable : listed.Pairwise fun earlier later => Version.compare earlier later = .eq →
    reported.idxOf earlier < reported.idxOf later

namespace Project

/-! ### Each version once -/

theorem distinct_concat (versions : List String) (version : String) :
    versionsInTree.distinct (versions ++ [version]) =
      if version ∈ versionsInTree.distinct versions then versionsInTree.distinct versions
      else versionsInTree.distinct versions ++ [version] := by
  rw [versionsInTree.distinct, List.foldl_append]
  rfl

/-- No version is lost, and each is kept where it stands first. -/
theorem ordered_distinct (versions : List String) :
    (∀ version, version ∈ versionsInTree.distinct versions ↔ version ∈ versions) ∧
      (versionsInTree.distinct versions).Pairwise fun earlier later =>
        versions.idxOf earlier < versions.idxOf later := by
  induction versions using List.reverseRecOn with
  | nil => simp [versionsInTree.distinct]
  | append_singleton versions version inductionHypothesis =>
    obtain ⟨members, ordered⟩ := inductionHypothesis
    have stays {other : String} (known : other ∈ versionsInTree.distinct versions) :
        (versions ++ [version]).idxOf other = versions.idxOf other :=
      List.idxOf_append_of_mem ((members other).mp known)
    have kept : (versionsInTree.distinct versions).Pairwise fun earlier later =>
        (versions ++ [version]).idxOf earlier < (versions ++ [version]).idxOf later := by
      refine ordered.imp_of_mem fun first second before => ?_
      rwa [stays first, stays second]
    rw [distinct_concat]
    split
    · next known =>
      refine ⟨fun other => ?_, kept⟩
      rw [List.mem_append, List.mem_singleton, members]
      refine ⟨Or.inl, fun either => either.elim id ?_⟩
      rintro rfl
      exact (members other).mp known
    · next new =>
      refine ⟨fun other => by simp [members], List.pairwise_append.mpr
        ⟨kept, List.pairwise_singleton _ _, fun other known last isLast => ?_⟩⟩
      obtain rfl := List.mem_singleton.mp isLast
      have absent : last ∉ versions := mt (members last).mpr new
      rw [stays known, List.idxOf_append_of_notMem absent, List.idxOf_cons_self]
      exact List.idxOf_lt_length_of_mem ((members other).mp known)

/-! ### Sorting -/

/-- The order by which versions are sorted. -/
def notOlder (first second : String) : Bool :=
  Version.compare second first ≠ .gt

theorem notOlder_iff {first second : String} :
    notOlder first second = true ↔ (Version.compare second first).isLE := by
  rw [notOlder, decide_eq_true_eq, Ordering.isLE_iff_ne_gt]

theorem notOlder_trans (first second third : String) (early : notOlder first second = true)
    (late : notOlder second third = true) : notOlder first third = true := by
  rw [notOlder_iff] at early late ⊢
  exact Std.TransCmp.isLE_trans late early

theorem notOlder_total (first second : String) :
    (notOlder first second || notOlder second first) = true := by
  rw [Bool.or_eq_true, notOlder_iff, notOlder_iff, ← Std.OrientedCmp.isGE_iff_isLE]
  cases Version.compare first second <;> simp

/-- A stable sort of versions that each stand where they were first reported. -/
theorem newestFirst_mergeSort {reported versions : List String}
    (members : ∀ version, version ∈ versions ↔ version ∈ reported)
    (ordered : versions.Pairwise fun earlier later =>
      reported.idxOf earlier < reported.idxOf later) :
    NewestFirst reported (versions.mergeSort notOlder) := by
  have sorted := List.pairwise_mergeSort notOlder_trans notOlder_total versions
  have once : versions.Nodup := ordered.imp fun before same => absurd (same ▸ before) (Nat.lt_irrefl _)
  refine ⟨(List.mergeSort_perm versions notOlder).nodup_iff.mpr once,
    fun version => List.mem_mergeSort.trans (members version),
    sorted.imp fun before => by simpa [notOlder] using before,
    List.pairwise_iff_forall_sublist.mpr fun {earlier later} inOrder equal => ?_⟩
  -- Those that are equal to one of them stand in the sorted list as they did before.
  let like (version : String) : Bool := Version.compare earlier version = .eq
  have alike : (versions.filter like).Pairwise fun first second => notOlder first second = true := by
    refine List.pairwise_of_forall_mem_list fun first inFirst second inSecond => ?_
    have isLike : Version.compare earlier first = .eq := by
      simpa [like] using (List.mem_filter.mp inFirst).2
    have isLike' : Version.compare earlier second = .eq := by
      simpa [like] using (List.mem_filter.mp inSecond).2
    rw [notOlder_iff, ← Std.TransCmp.congr_left isLike', isLike]
    rfl
  have kept := (List.sublist_mergeSort notOlder_trans notOlder_total alike
    List.filter_sublist).filter like
  rw [List.filter_filter] at kept
  simp only [Bool.and_self] at kept
  have same := kept.eq_of_length
    ((List.mergeSort_perm versions notOlder).filter like).length_eq.symm
  have pair := inOrder.filter like
  rw [← same] at pair
  have isLike : like earlier = true := by simpa [like] using Std.ReflCmp.compare_self
  have isLike' : like later = true := by simpa [like] using equal
  simp only [List.filter_cons, isLike, isLike', ↓reduceIte, List.filter_nil] at pair
  exact List.pairwise_iff_forall_sublist.mp ordered (pair.trans List.filter_sublist)

/-! ### The tree of a project -/

/-- The members of a list that pass a test are found by their places. -/
theorem filterMap_getElem?_range {α : Type} (holds : α → Bool) (list : List α) :
    ((List.range list.length).filter fun index => list[index]?.any holds).filterMap
      (fun index => list[index]?) = list.filter holds := by
  induction list with
  | nil => rfl
  | cons first rest inductionHypothesis =>
    have others : (((List.range rest.length).filter fun index => rest[index]?.any holds).map
        Nat.succ).filterMap (fun index => (first :: rest)[index]?) = rest.filter holds := by
      rw [List.filterMap_map, ← inductionHypothesis]
      rfl
    rw [List.length_cons, List.range_succ_eq_map, List.filter_cons, List.filter_map]
    by_cases passes : holds first <;> simp [passes, Function.comp_def, others]

/-- The versions that are sorted are those that the report names. -/
theorem map_version_entriesOf {project : Project} {view : TreeView}
    (stored : project.tree = some view) (key : ArtifactKey) :
    (project.entriesOf key).map Report.Entry.version = view.forest.versionsOf key := by
  have found : (view.forest.find key).filterMap (fun index => view.forest.nodes[index]?) =
      view.forest.nodes.toList.filter fun node => node.entry.key == key := by
    simpa [Report.Forest.find, Report.Forest.indicesWhere, Report.Forest.size] using
      filterMap_getElem?_range (fun node => node.entry.key == key) view.forest.nodes.toList
  rw [entriesOf, stored, Report.Forest.versionsOf, ← found, List.map_filterMap, List.map_filterMap]
  refine List.filterMap_congr fun index _ => ?_
  rw [Option.map_map]
  rfl

theorem versionsInTree_eq {project : Project} {view : TreeView} (stored : project.tree = some view)
    (key : ArtifactKey) :
    project.versionsInTree key =
      (versionsInTree.distinct (view.forest.versionsOf key)).mergeSort notOlder := by
  rw [versionsInTree, map_version_entriesOf stored]
  rfl

/-- Versions are in a total preorder: turning two around turns their order around, a version is
equal to itself, what is not newer is so in a chain, and equal versions compare alike with every
third. The versions that a stored report names for an artifact are therefore listed each once, the
newest first, and equal ones in the order of the report. -/
theorem newestFirst_versionsInTree :
    (∀ first second, Version.compare second first = (Version.compare first second).swap) ∧
    (∀ version, Version.compare version version = .eq) ∧
    (∀ first second third, Version.compare first second ≠ .gt →
      Version.compare second third ≠ .gt → Version.compare first third ≠ .gt) ∧
    (∀ first second, Version.compare first second = .eq →
      ∀ third, Version.compare first third = Version.compare second third) ∧
    ∀ (project : Project) (view : TreeView), project.tree = some view → ∀ key,
      NewestFirst (view.forest.versionsOf key) (project.versionsInTree key) := by
  refine ⟨fun first second => Std.OrientedCmp.eq_swap, fun version => Std.ReflCmp.compare_self,
    fun first second third early late => ?_, fun first second equal third => ?_,
    fun project view stored key => ?_⟩
  · exact Ordering.isLE_iff_ne_gt.mp (Std.TransCmp.isLE_trans (Ordering.isLE_iff_ne_gt.mpr early)
      (Ordering.isLE_iff_ne_gt.mpr late))
  · exact Std.TransCmp.congr_left equal
  · obtain ⟨members, ordered⟩ := ordered_distinct (view.forest.versionsOf key)
    rw [versionsInTree_eq stored]
    exact newestFirst_mergeSort members ordered

/-- Two spellings of one version, one of them named twice, between an older and a newer one. -/
def spellingsReport : String :=
  "g:p:jar:1\n+- g:a:jar:1.0-rc1:compile\n|  \\- g:a:jar:1.0.0:compile\n" ++
    "+- g:a:jar:1.0:compile\n|  \\- g:a:jar:1.0.0:compile\n\\- g:a:jar:2-RC1:compile\n"

theorem newestFirst_versionsInTree_spellings :
    let project := ((new ⟨"/p/pom.xml"⟩).applyTreeReport spellingsReport).1
    (Version.compare "1.0-rc1" "1.0" ≠ .gt ∧ Version.compare "1.0" "1.0.0" ≠ .gt ∧
      Version.compare "1.0-rc1" "1.0.0" ≠ .gt) ∧
    (Version.compare "1.0" "1.0.0" = .eq ∧
      Version.compare "1.0" "2-RC1" = Version.compare "1.0.0" "2-RC1") ∧
    ∃ view, project.tree = some view ∧
      view.forest.versionsOf ⟨"g", "a"⟩ = ["1.0-rc1", "1.0.0", "1.0", "1.0.0", "2-RC1"] ∧
      project.versionsInTree ⟨"g", "a"⟩ = ["2-RC1", "1.0.0", "1.0", "1.0-rc1"] ∧
      NewestFirst (view.forest.versionsOf ⟨"g", "a"⟩) (project.versionsInTree ⟨"g", "a"⟩) := by
  intro project
  obtain ⟨-, -, chain, alike, lists⟩ := newestFirst_versionsInTree
  have early : Version.compare "1.0-rc1" "1.0" = .lt := by cbv
  have equal : Version.compare "1.0" "1.0.0" = .eq := by cbv
  have isOlder : Version.compare "1.0-rc1" "1.0" ≠ .gt := by simp [early]
  have isNoNewer : Version.compare "1.0" "1.0.0" ≠ .gt := by simp [equal]
  have named : project.tree.map (fun view => view.forest.versionsOf ⟨"g", "a"⟩) =
      some ["1.0-rc1", "1.0.0", "1.0", "1.0.0", "2-RC1"] := by decide +kernel
  obtain ⟨view, stored, versions⟩ := Option.map_eq_some_iff.mp named
  have listed : project.versionsInTree ⟨"g", "a"⟩ = ["2-RC1", "1.0.0", "1.0", "1.0-rc1"] := by
    rw [versionsInTree_eq stored, versions]
    cbv
  exact ⟨⟨isOlder, isNoNewer, chain _ _ _ isOlder isNoNewer⟩, ⟨equal, alike _ _ equal _⟩, view,
    stored, versions, listed, lists project view stored _⟩

end Project

end PomLens
