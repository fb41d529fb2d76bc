/-
This file proves that the edits of a set are made at once.

All spans of a set refer to the text before the change, and a set is applied in one pass from the
left. What the pass does can be said without it. It goes through exactly if every edit covers
characters of the text and of any two edits one ends where the other starts, or before
(`follow_edits_iff`). The new text is then that of the edits made one at a time from the last to
the first, where each still finds its span in place (`Amends.replaceFromLast?`). Otherwise the
error names the first edit that cannot be made (`applyFrom_verdict`). The order in which edits were
added counts only among those of one span, since the others are sorted (`Arranges.unique`).
-/

import Mathlib.Data.List.Chain
import PomLens.Proofs.Edit.Amendment
import PomLens.Proofs.Text.Offsets

namespace PomLens

open Text (size cut?_eq_some_iff exists_between)

/-! ### What edits ask of a text and of each other -/

namespace Edit

/-- The span of the edit covers some characters of the text. -/
def Fits (text : List Char) (edit : Edit) : Prop :=
  ∃ before covered after, text = before ++ (covered ++ after) ∧
    size before = edit.span.start ∧ size before + size covered = edit.span.stop

/-- One of two edits ends where the other one starts, or before. -/
def Apart (first second : Edit) : Prop :=
  first.span.stop ≤ second.span.start ∨ second.span.stop ≤ first.span.start

/-- The text with this edit made and no other. -/
def replaceIn? (edit : Edit) (text : List Char) : Option (List Char) := do
  let (before, rest) ← Text.cut? edit.span.start text
  let (_, after) ← Text.cut? edit.span.length rest
  return before ++ edit.text.toList ++ after

theorem Apart.symm {first second : Edit} (apart : Apart first second) : Apart second first :=
  Or.symm apart

/-- A span fits where both its ends are boundaries. -/
theorem fits_iff {text : List Char} {edit : Edit} :
    edit.Fits text ↔
      (Text.isBoundary text edit.span.start && Text.isBoundary text edit.span.stop) = true := by
  rw [Bool.and_eq_true, Text.isBoundary, Text.isBoundary, Option.isSome_iff_exists,
    Option.isSome_iff_exists]
  constructor
  · rintro ⟨before, covered, after, rfl, start, stop⟩
    have starts := cut?_eq_some_iff.mpr
      ⟨(rfl : before ++ (covered ++ after) = before ++ (covered ++ after)), start⟩
    have stops : Text.cut? edit.span.stop (before ++ (covered ++ after)) =
        some (before ++ covered, after) := cut?_eq_some_iff.mpr ⟨by simp, by simp [stop]⟩
    exact ⟨⟨_, starts⟩, _, stops⟩
  · rintro ⟨⟨⟨before, rest⟩, starts⟩, ⟨other, after⟩, stops⟩
    obtain ⟨rfl, start⟩ := cut?_eq_some_iff.mp starts
    obtain ⟨whole, stop⟩ := cut?_eq_some_iff.mp stops
    obtain ⟨covered, rfl, rfl⟩ := exists_between whole (by rw [start, stop]; exact edit.span.ordered)
    exact ⟨before, covered, after, rfl, start, by simpa using stop⟩

end Edit

/-- The edits cover characters of the text, and each starts where the one before it ends, or
behind. -/
structure Follow (text : List Char) (edits : List Edit) : Prop where
  fits : ∀ edit ∈ edits, edit.Fits text
  ordered : edits.IsChain fun first second => first.span.stop ≤ second.span.start

/-- The error names the first edit that cannot be made: it does not cover characters of the text,
or it does and starts before the edit in front of it ends. -/
def NamesFirst (text : List Char) (edits : List Edit) (error : EditError) : Prop :=
  ∃ before edit after, edits = before ++ edit :: after ∧ Follow text before ∧
    (¬ edit.Fits text ∧ error = .outOfBounds edit.span.start edit.span.stop ∨
      edit.Fits text ∧ (∃ previous ∈ before.getLast?, edit.span.start < previous.span.stop) ∧
        error = .overlap edit.span.start)

/-- The text after some edits were made one at a time, the last one first. -/
def replaceFromLast? (edits : List Edit) (text : List Char) : Option (List Char) :=
  edits.foldrM Edit.replaceIn? text

/-- The edits that were added, by where they start and then by where they end, those of one span in
the order in which they were added. -/
structure Arranges (added arranged : List Edit) : Prop where
  sorted : arranged.Pairwise fun first second => Edit.le first second
  stable : ∀ span, arranged.filter (fun edit => edit.span = span) =
    added.filter fun edit => edit.span = span

/-! ### The pass over the text -/

/-- Where the last of some edits ends. -/
def reached (edits : List Edit) : Nat :=
  (edits.getLast?.map fun edit => edit.span.stop).getD 0

@[simp] theorem reached_concat (edits : List Edit) (edit : Edit) :
    reached (edits ++ [edit]) = edit.span.stop := by
  simp [reached]

/-- What is done with one edit. -/
theorem applyFrom_cases (text : List Char) (cursor : Nat) (edit : Edit) (rest : List Edit) :
    (¬ edit.Fits text ∧ EditSet.applyFrom text cursor (edit :: rest) =
      .error (.outOfBounds edit.span.start edit.span.stop)) ∨
    (edit.Fits text ∧ edit.span.start < cursor ∧ EditSet.applyFrom text cursor (edit :: rest) =
      .error (.overlap edit.span.start)) ∨
    (edit.Fits text ∧ cursor ≤ edit.span.start ∧ ∃ kept,
      EditSet.applyFrom text cursor (edit :: rest) =
        (EditSet.applyFrom text edit.span.stop rest).map fun after => kept ++ after) := by
  by_cases fits : edit.Fits text
  · have inBounds := Edit.fits_iff.mp fits
    by_cases early : edit.span.start < cursor
    · refine Or.inr (Or.inl ⟨fits, early, ?_⟩)
      simp [EditSet.applyFrom, inBounds, early, bind, Except.bind, throw, throwThe,
        MonadExceptOf.throw]
    · refine Or.inr (Or.inr ⟨fits, by omega,
        ((Span.between cursor edit.span.start).slice? text).getD [] ++ edit.text.toList, ?_⟩)
      simp only [EditSet.applyFrom, inBounds, early, Bool.not_true, Bool.false_eq_true, ↓reduceIte]
      rfl
  · have outside : (Text.isBoundary text edit.span.start &&
        Text.isBoundary text edit.span.stop) = false := by
      rw [← Bool.not_eq_true]
      exact mt Edit.fits_iff.mpr fits
    refine Or.inl ⟨fits, ?_⟩
    simp only [EditSet.applyFrom, outside, Bool.not_false, ↓reduceIte]
    rfl

theorem Follow.concat {text : List Char} {edits : List Edit} (follow : Follow text edits)
    {edit : Edit} (fits : edit.Fits text) (inTime : reached edits ≤ edit.span.start) :
    Follow text (edits ++ [edit]) := by
  refine ⟨fun other member => ?_, List.isChain_append.mpr ⟨follow.ordered, .singleton _, ?_⟩⟩
  · rcases List.mem_append.mp member with old | new
    · exact follow.fits other old
    · rw [List.mem_singleton.mp new]
      exact fits
  · intro last isLast head isHead
    obtain rfl : edit = head := by simpa using isHead
    simpa [reached, Option.mem_def.mp isLast] using inTime

/-- Behind edits that could be made, the pass goes on to the end if all others can be made too, and
else it stops at the first that cannot. -/
theorem applyFrom_verdict {text : List Char} {made : List Edit} (follow : Follow text made)
    (rest : List Edit) :
    match EditSet.applyFrom text (reached made) rest with
    | .ok _ => Follow text (made ++ rest)
    | .error error => NamesFirst text (made ++ rest) error := by
  induction rest generalizing made with
  | nil => simpa [EditSet.applyFrom, pure, Except.pure] using follow
  | cons edit rest inductionHypothesis =>
    rcases applyFrom_cases text (reached made) edit rest with
      ⟨cut, refused⟩ | ⟨fits, early, refused⟩ | ⟨fits, inTime, kept, goesOn⟩
    · rw [refused]
      exact ⟨made, edit, rest, rfl, follow, Or.inl ⟨cut, rfl⟩⟩
    · rw [refused]
      -- Nothing starts before the start of the text, so there is an edit in front.
      obtain ⟨previous, isLast⟩ : ∃ previous, made.getLast? = some previous := by
        cases last : made.getLast? with
        | none => simp [reached, last] at early
        | some previous => exact ⟨previous, rfl⟩
      refine ⟨made, edit, rest, rfl, follow, Or.inr ⟨fits, ⟨previous, isLast, ?_⟩, rfl⟩⟩
      simpa [reached, isLast] using early
    · have further := inductionHypothesis (follow.concat fits inTime)
      rw [reached_concat, List.append_assoc, List.singleton_append] at further
      rw [goesOn]
      cases outcome : EditSet.applyFrom text edit.span.stop rest with
      | error error =>
        rw [outcome] at further
        exact further
      | ok after =>
        rw [outcome] at further
        exact further

/-- Edits that follow each other make a new text. -/
theorem Follow.exists_amends {before old : List Char} {edits : List Edit}
    (follow : Follow (before ++ old) edits)
    (inTime : ∀ first ∈ edits.head?, size before ≤ first.span.start) :
    ∃ new, Amends (size before) old edits new := by
  induction edits generalizing before old with
  | nil => exact ⟨old, .keep _ _⟩
  | cons edit rest inductionHypothesis =>
    obtain ⟨fits, fitsRest⟩ := List.forall_mem_cons.mp follow.fits
    obtain ⟨starts, ordered⟩ := List.isChain_cons.mp follow.ordered
    obtain ⟨front, covered, after, whole, start, stop⟩ := fits
    obtain ⟨kept, rfl, rfl⟩ := exists_between whole (by rw [start]; exact inTime edit rfl)
    have split : before ++ (kept ++ (covered ++ after)) = (before ++ kept ++ covered) ++ after := by
      simp
    have place : size (before ++ kept ++ covered) = edit.span.stop := by
      rw [Text.size_append, stop]
    rw [split] at fitsRest
    obtain ⟨new, amends⟩ := inductionHypothesis ⟨fitsRest, ordered⟩ fun first isFirst => by
      rw [place]
      exact starts first isFirst
    rw [place] at amends
    rw [Text.size_append] at start stop
    exact ⟨_, .edit kept covered start.symm stop.symm amends⟩

/-- A set is applied exactly if its edits follow each other in their order. -/
theorem EditSet.applyTo_eq_ok_iff {set : EditSet} {text : String} :
    (∃ new, set.applyTo text = .ok new) ↔ Follow text.toList set.edits := by
  have nothing : Follow text.toList [] := ⟨by simp, .nil⟩
  have verdict := applyFrom_verdict nothing set.edits
  constructor
  · rintro ⟨new, applied⟩
    rw [EditSet.applyTo] at applied
    cases outcome : EditSet.applyFrom text.toList 0 set.edits with
    | error error =>
      rw [outcome] at applied
      cases applied
    | ok chars => simpa [reached, outcome] using verdict
  · intro follow
    obtain ⟨new, amends⟩ := @Follow.exists_amends [] text.toList set.edits follow (by simp)
    exact ⟨String.ofList new, amends.applyTo⟩

/-! ### One edit at a time -/

/-- An edit that is made alone puts its text in place of what it covers. -/
theorem Edit.replaceIn?_eq {edit : Edit} {before removed after : List Char}
    (start : size before = edit.span.start) (stop : size before + size removed = edit.span.stop) :
    edit.replaceIn? (before ++ (removed ++ after)) =
      some (before ++ (edit.text.toList ++ after)) := by
  have starts : Text.cut? edit.span.start (before ++ (removed ++ after)) =
      some (before, removed ++ after) := cut?_eq_some_iff.mpr ⟨rfl, start⟩
  have stops : Text.cut? edit.span.length (removed ++ after) = some (removed, after) :=
    cut?_eq_some_iff.mpr ⟨rfl, by rw [Span.length]; omega⟩
  simp [Edit.replaceIn?, starts, stops]

/-- The edits of an amendment may be made one at a time. What the last of them does leaves the
spans of the others where they are. -/
theorem Amends.replaceFromLast? {before old new : List Char} {edits : List Edit}
    (amends : Amends (size before) old edits new) :
    replaceFromLast? edits (before ++ old) = some (before ++ new) := by
  generalize atOffset : size before = offset at amends
  induction amends generalizing before with
  | keep offset text => rfl
  | @edit offset kept removed edit after new later start stop rest inductionHypothesis =>
    have split (tail : List Char) : before ++ (kept ++ (removed ++ tail)) =
        (before ++ kept ++ removed) ++ tail := by simp
    have others : PomLens.replaceFromLast? later (before ++ (kept ++ (removed ++ after))) =
        some ((before ++ kept) ++ (removed ++ new)) := by
      rw [split, inductionHypothesis (by simp [atOffset, stop, Nat.add_assoc])]
      simp
    have here := @Edit.replaceIn?_eq edit (before ++ kept) removed new
      (by simp [atOffset, start]) (by simp [atOffset, stop])
    rw [PomLens.replaceFromLast?] at others
    rw [PomLens.replaceFromLast?, List.foldrM_cons, others, Option.bind_eq_bind, Option.bind_some,
      here, List.append_assoc]

/-! ### The order of the edits -/

theorem EditSet.arranges_edits (set : EditSet) : Arranges set.added set.edits := by
  refine ⟨set.edits_pairwise, fun span => ?_⟩
  have alike : (set.added.filter fun edit => edit.span = span).Pairwise fun first second =>
      Edit.le first second = true := by
    refine List.pairwise_of_forall_mem_list fun first inFirst second inSecond => ?_
    have same : first.span = span := by simpa using (List.mem_filter.mp inFirst).2
    have same' : second.span = span := by simpa using (List.mem_filter.mp inSecond).2
    simp [Edit.le_iff, same, same']
  -- The sort is stable, so it keeps the edits of one span as a sublist.
  have kept := (List.sublist_mergeSort Edit.le_trans Edit.le_total alike
    List.filter_sublist).filter fun edit => decide (edit.span = span)
  rw [List.filter_filter] at kept
  simp only [Bool.and_self] at kept
  exact (kept.eq_of_length (set.edits_perm.filter _).length_eq.symm).symm

/-- Edits are arranged in one way only. -/
theorem Arranges.unique {added first second : List Edit} (left : Arranges added first)
    (right : Arranges added second) : first = second := by
  have same (span : Span) := (left.stable span).trans (right.stable span).symm
  have sorted := left.sorted
  have sorted' := right.sorted
  clear left right
  induction first generalizing second with
  | nil =>
    cases second with
    | nil => rfl
    | cons edit rest => simpa using same edit.span
  | cons edit rest inductionHypothesis =>
    cases second with
    | nil => simpa using same edit.span
    | cons edit' rest' =>
      obtain ⟨least, sortedRest⟩ := List.pairwise_cons.mp sorted
      obtain ⟨least', sortedRest'⟩ := List.pairwise_cons.mp sorted'
      have le : Edit.le edit edit' = true := by
        have member : edit' ∈ (edit :: rest).filter fun other => other.span = edit'.span := by
          rw [same]
          simp
        rcases List.mem_cons.mp (List.mem_filter.mp member).1 with rfl | later
        · exact (Bool.or_self _).symm.trans (Edit.le_total _ _)
        · exact least edit' later
      have ge : Edit.le edit' edit = true := by
        have member : edit ∈ (edit' :: rest').filter fun other => other.span = edit.span := by
          rw [← same]
          simp
        rcases List.mem_cons.mp (List.mem_filter.mp member).1 with rfl | later
        · exact (Bool.or_self _).symm.trans (Edit.le_total _ _)
        · exact least' edit later
      have heads := same edit.span
      have spans := Edit.span_eq_of_le le ge
      simp only [decide_true, List.filter_cons_of_pos, ← spans, List.cons.injEq] at heads
      obtain ⟨rfl, -⟩ := heads
      refine congrArg (edit :: ·) (inductionHypothesis (fun span => ?_) sortedRest sortedRest')
      have whole := same span
      by_cases here : edit.span = span
      · simpa [here] using whole
      · simpa [here] using whole

/-- Of two edits in order, the second starts behind the first if they are apart. -/
theorem Edit.apart_iff_of_le {first second : Edit} (le : Edit.le first second = true) :
    first.Apart second ↔ first.span.stop ≤ second.span.start := by
  have := first.span.ordered
  have := second.span.ordered
  rw [Edit.le_iff] at le
  rw [Edit.Apart]
  omega

/-- The edits of a set follow each other if they all fit and any two of them are apart. -/
theorem follow_edits_iff {set : EditSet} {text : List Char} :
    Follow text set.edits ↔
      (∀ edit ∈ set.added, edit.Fits text) ∧ set.added.Pairwise Edit.Apart := by
  have members : (∀ edit ∈ set.edits, edit.Fits text) ↔ ∀ edit ∈ set.added, edit.Fits text :=
    forall_congr' fun edit => by rw [set.edits_perm.mem_iff]
  have pairs : set.edits.Pairwise Edit.Apart ↔ set.added.Pairwise Edit.Apart :=
    set.edits_perm.pairwise_iff Edit.Apart.symm
  rw [← members, ← pairs]
  constructor
  · rintro ⟨fits, ordered⟩
    have : Trans (fun first second : Edit => first.span.stop ≤ second.span.start)
        (fun first second : Edit => first.span.stop ≤ second.span.start)
        (fun first second : Edit => first.span.stop ≤ second.span.start) :=
      ⟨fun {_ second _} left right => left.trans (second.span.ordered.trans right)⟩
    exact ⟨fits, (List.isChain_iff_pairwise.mp ordered).imp Or.inl⟩
  · rintro ⟨fits, apart⟩
    have ordered := (set.edits_pairwise.and apart).imp fun ⟨le, apart⟩ =>
      (Edit.apart_iff_of_le le).mp apart
    exact ⟨fits, ordered.isChain⟩

/-! ### Sets of edits -/

/-- Where a set is applied, its edits may be made one at a time. -/
theorem EditSet.replaceFromLast?_of_applyTo {set : EditSet} {text new : String}
    (applied : set.applyTo text = .ok new) :
    replaceFromLast? set.edits text.toList = some new.toList := by
  have follow := EditSet.applyTo_eq_ok_iff.mp ⟨new, applied⟩
  obtain ⟨chars, amends⟩ := @Follow.exists_amends [] text.toList set.edits follow (by simp)
  have oneByOne := @Amends.replaceFromLast? [] text.toList chars set.edits amends
  obtain rfl : String.ofList chars = new := Except.ok.inj (amends.applyTo.symm.trans applied)
  rw [String.toList_ofList]
  exact oneByOne

/-- A set of edits is a simultaneous replacement. It can be applied exactly if every edit covers
characters of the text and any two edits are apart. The new text is that of the edits made one at a
time from the last to the first, and the order in which they were added matters only among those of
one span. Where the set cannot be applied, the error names the first edit that is in the way. -/
theorem EditSet.applyTo_simultaneous (set : EditSet) (text : String) :
    Arranges set.added set.edits ∧
    ((∃ new, set.applyTo text = .ok new) ↔
      (∀ edit ∈ set.added, edit.Fits text.toList) ∧ set.added.Pairwise Edit.Apart) ∧
    (∀ new, set.applyTo text = .ok new →
      replaceFromLast? set.edits text.toList = some new.toList) ∧
    (∀ other : EditSet,
      (∀ span, other.added.filter (fun edit => edit.span = span) =
        set.added.filter fun edit => edit.span = span) →
      other.applyTo text = set.applyTo text) ∧
    ∀ error, set.applyTo text = .error error → NamesFirst text.toList set.edits error := by
  refine ⟨set.arranges_edits, EditSet.applyTo_eq_ok_iff.trans follow_edits_iff,
    fun new => EditSet.replaceFromLast?_of_applyTo, ?_, ?_⟩
  · intro other alike
    have arranges : Arranges set.added other.edits :=
      ⟨other.edits_pairwise, fun span => (other.arranges_edits.stable span).trans (alike span)⟩
    rw [EditSet.applyTo, EditSet.applyTo, arranges.unique set.arranges_edits]
  · intro error failed
    have nothing : Follow text.toList [] := ⟨by simp, .nil⟩
    have verdict := applyFrom_verdict nothing set.edits
    rw [EditSet.applyTo] at failed
    cases outcome : EditSet.applyFrom text.toList 0 set.edits with
    | ok chars =>
      rw [outcome] at failed
      cases failed
    | error other =>
      rw [outcome] at failed
      obtain rfl : other = error := Except.error.inj failed
      simpa [reached, outcome] using verdict

/-- Two edits of different spans may be added in either order. -/
theorem filter_swap {first second : Edit} (different : first.span ≠ second.span) (span : Span) :
    [second, first].filter (fun edit => edit.span = span) =
      [first, second].filter fun edit => edit.span = span := by
  by_cases here : first.span = span
  · have notThere : second.span ≠ span := fun there => different (here.trans there.symm)
    simp [here, notThere]
  · simp [List.filter_cons, here]

/-- Two edits that were added in the wrong order are turned around. -/
theorem EditSet.edits_swap {path : Path} {first second : Edit} (le : Edit.le first second = true)
    (different : first.span ≠ second.span) :
    (⟨path, [second, first]⟩ : EditSet).edits = [first, second] :=
  (arranges_edits _).unique
    ⟨List.pairwise_pair.mpr le, fun span => (filter_swap different span).symm⟩

/-- An element gives way to another one, which is written where the old one's line starts. -/
def exchange : EditSet :=
  ⟨⟨"/p/pom.xml"⟩, [.delete (.between 3 10), .insert 3 "\n  <c/>"]⟩

/-- Two edits of which the second starts inside the first. -/
def crossing : EditSet :=
  ⟨⟨"/p/pom.xml"⟩, [⟨.between 3 7, "x"⟩, .delete (.between 0 5)]⟩

theorem EditSet.applyTo_simultaneous_exchange :
    (exchange.applyTo "<a>\n  <b/>\n</a>" = .ok "<a>\n  <c/>\n</a>" ∧
      replaceFromLast? exchange.edits "<a>\n  <b/>\n</a>".toList =
        some "<a>\n  <c/>\n</a>".toList) ∧
    (⟨exchange.path, exchange.added.reverse⟩ : EditSet).applyTo "<a>\n  <b/>\n</a>" =
      exchange.applyTo "<a>\n  <b/>\n</a>" ∧
    crossing.applyTo "0123456789" = .error (.overlap 3) ∧
      NamesFirst "0123456789".toList crossing.edits (.overlap 3) := by
  have applied : exchange.applyTo "<a>\n  <b/>\n</a>" = .ok "<a>\n  <c/>\n</a>" := by
    rw [EditSet.applyTo, exchange, EditSet.edits_swap (by decide) (by decide)]
    decide +kernel
  have failed : crossing.applyTo "0123456789" = .error (.overlap 3) := by
    rw [EditSet.applyTo, crossing, EditSet.edits_swap (by decide) (by decide)]
    decide +kernel
  obtain ⟨-, -, oneByOne, anyOrder, -⟩ :=
    EditSet.applyTo_simultaneous exchange "<a>\n  <b/>\n</a>"
  obtain ⟨-, -, -, -, names⟩ := EditSet.applyTo_simultaneous crossing "0123456789"
  exact ⟨⟨applied, oneByOne _ applied⟩, anyOrder _ (filter_swap (by decide)), failed,
    names _ failed⟩

end PomLens
