/-
This file says what a set of edits makes of a text.

An amendment goes over the old text from the left: it keeps some of it, puts the text of the
first edit in place of what that edit covers, and goes on behind it. Amendments of texts that
stand side by side are put side by side (`Amends.append`), so the edits of a text may be looked
at where they are. If the edits of a set are those of an amendment in any order, and the set has
no two insertions, applying the set gives the new text (`applyTo_of_amends`).
-/

import Mathlib.Data.List.Sort
import PomLens.Edit

namespace PomLens

open Text (size cut?_eq_some_iff)

/-- The edits, from the left, make `new` of the text `old`, which stands at `offset`. -/
inductive Amends : Nat → List Char → List Edit → List Char → Prop
  | keep (offset : Nat) (text : List Char) : Amends offset text [] text
  | edit {offset : Nat} (kept removed : List Char) {edit : Edit} {after new : List Char}
      {later : List Edit} (start : edit.span.start = offset + size kept)
      (stop : edit.span.stop = offset + size kept + size removed)
      (rest : Amends edit.span.stop after later new) :
      Amends offset (kept ++ (removed ++ after)) (edit :: later)
        (kept ++ (edit.text.toList ++ new))

namespace Amends

/-- An amendment that is put behind a text that is kept. -/
theorem behind {offset : Nat} {first second second' : List Char} {edits : List Edit}
    (amends : Amends (offset + size first) second edits second') :
    Amends offset (first ++ second) edits (first ++ second') := by
  cases amends with
  | keep => exact .keep _ _
  | edit kept removed start stop rest =>
    have whole := @Amends.edit offset (first ++ kept) removed _ _ _ _
      (by rw [start, Text.size_append, Nat.add_assoc])
      (by rw [stop, Text.size_append, Nat.add_assoc offset]) rest
    rwa [List.append_assoc, List.append_assoc] at whole

theorem append {offset : Nat} {first first' second second' : List Char} {here there : List Edit}
    (left : Amends offset first here first')
    (right : Amends (offset + size first) second there second') :
    Amends offset (first ++ second) (here ++ there) (first' ++ second') := by
  induction left with
  | keep offset text => exact right.behind
  | edit kept removed start stop rest inductionHypothesis =>
    rw [Text.size_append, Text.size_append, ← Nat.add_assoc, ← Nat.add_assoc, ← stop] at right
    have whole := Amends.edit kept removed start stop (inductionHypothesis right)
    simpa only [List.append_assoc, List.cons_append] using whole

/-- A single edit that replaces a whole text. -/
theorem replace {offset : Nat} (removed : List Char) {edit : Edit}
    (start : edit.span.start = offset) (stop : edit.span.stop = offset + size removed) :
    Amends offset removed [edit] edit.text.toList := by
  have whole := @Amends.edit offset [] removed edit _ _ _ (by simpa using start)
    (by simpa using stop) (.keep edit.span.stop [])
  simpa using whole

/-- The edits lie inside the text. -/
theorem bounds {offset : Nat} {old new : List Char} {edits : List Edit}
    (amends : Amends offset old edits new) :
    ∀ edit ∈ edits, offset ≤ edit.span.start ∧ edit.span.stop ≤ offset + size old := by
  induction amends with
  | keep => simp
  | edit kept removed start stop rest inductionHypothesis =>
    refine List.forall_mem_cons.mpr ⟨⟨by omega, ?_⟩, fun other member => ?_⟩
    · rw [stop]
      simp only [Text.size_append]
      omega
    · have := inductionHypothesis other member
      simp only [Text.size_append]
      omega

/-- Each edit ends before the next one starts. -/
theorem ordered {offset : Nat} {old new : List Char} {edits : List Edit}
    (amends : Amends offset old edits new) :
    edits.Pairwise fun first second => first.span.stop ≤ second.span.start := by
  induction amends with
  | keep => exact .nil
  | edit kept removed start stop rest inductionHypothesis =>
    exact .cons (fun other member => (rest.bounds other member).1) inductionHypothesis

/-- The edits of an amendment can be made one after the other, and make its new text. -/
theorem applyFrom {before old new : List Char} {edits : List Edit}
    (amends : Amends (size before) old edits new) :
    EditSet.applyFrom (before ++ old) (size before) edits = .ok new := by
  generalize atOffset : size before = offset at amends
  induction amends generalizing before with
  | keep offset text =>
    have cut := cut?_eq_some_iff.mpr ⟨(rfl : before ++ text = before ++ text), atOffset⟩
    simp [EditSet.applyFrom, cut]
    rfl
  | @edit offset kept removed edit after new later start stop rest inductionHypothesis =>
    have whole : before ++ (kept ++ (removed ++ after)) = (before ++ kept ++ removed) ++ after := by
      simp
    have startCut : Text.cut? edit.span.start (before ++ (kept ++ (removed ++ after))) =
        some (before ++ kept, removed ++ after) :=
      cut?_eq_some_iff.mpr ⟨by simp, by simp [atOffset, start]⟩
    have stopCut : Text.cut? edit.span.stop (before ++ (kept ++ (removed ++ after))) =
        some (before ++ kept ++ removed, after) :=
      cut?_eq_some_iff.mpr ⟨whole, by simp [atOffset, stop, Nat.add_assoc]⟩
    have inBounds : (Text.isBoundary (before ++ (kept ++ (removed ++ after))) edit.span.start &&
        Text.isBoundary (before ++ (kept ++ (removed ++ after))) edit.span.stop) = true := by
      simp [Text.isBoundary, startCut, stopCut]
    have notBefore : ¬ edit.span.start < offset := by omega
    have taken : (Span.between offset edit.span.start).slice?
        (before ++ (kept ++ (removed ++ after))) = some kept := by
      have cursor : Text.cut? offset (before ++ (kept ++ (removed ++ after))) =
          some (before, kept ++ (removed ++ after)) := cut?_eq_some_iff.mpr ⟨rfl, atOffset⟩
      have length : (Span.between offset edit.span.start).length = size kept := by
        simp [Span.between, Span.length, start]
      have covered : Text.cut? (size kept) (kept ++ (removed ++ after)) =
          some (kept, removed ++ after) := cut?_eq_some_iff.mpr ⟨rfl, rfl⟩
      have begins : (Span.between offset edit.span.start).start = offset := rfl
      rw [Span.slice?, begins, length, cursor]
      simp [covered]
    have others : EditSet.applyFrom (before ++ (kept ++ (removed ++ after))) edit.span.stop later =
        .ok new := by
      rw [whole]
      exact inductionHypothesis (by simp [atOffset, stop, Nat.add_assoc])
    simp only [EditSet.applyFrom, inBounds, Bool.not_true, Bool.false_eq_true, ↓reduceIte,
      notBefore, taken, others, Option.getD_some]
    simp [bind, Except.bind, pure, Except.pure]

end Amends

/-! ### Sorting -/

theorem Edit.le_iff {first second : Edit} :
    Edit.le first second = true ↔ first.span.start < second.span.start ∨
      first.span.start = second.span.start ∧ first.span.stop ≤ second.span.stop := by
  simp [Edit.le]

theorem Edit.le_trans (first second third : Edit) (early : Edit.le first second = true)
    (late : Edit.le second third = true) : Edit.le first third = true := by
  rw [Edit.le_iff] at early late ⊢
  omega

theorem Edit.le_total (first second : Edit) :
    (Edit.le first second || Edit.le second first) = true := by
  rw [Bool.or_eq_true, Edit.le_iff, Edit.le_iff]
  omega

/-- Edits that stand in order both ways have the same span. -/
theorem Edit.span_eq_of_le {first second : Edit} (le : Edit.le first second = true)
    (ge : Edit.le second first = true) : first.span = second.span := by
  rw [Edit.le_iff] at le ge
  exact Span.ext (by omega) (by omega)

theorem EditSet.edits_pairwise (set : EditSet) :
    set.edits.Pairwise fun first second => Edit.le first second = true :=
  List.pairwise_mergeSort Edit.le_trans Edit.le_total set.added

theorem EditSet.edits_perm (set : EditSet) : set.edits.Perm set.added :=
  List.mergeSort_perm set.added Edit.le

/-- No two edits of a list insert something, unless they are the same. -/
def OneInsertion (edits : List Edit) : Prop :=
  ∀ first ∈ edits, ∀ second ∈ edits, first.span.isEmpty = true → second.span.isEmpty = true →
    first = second

theorem oneInsertion_singleton (edit : Edit) : OneInsertion [edit] := by
  intro first firstMember second secondMember _ _
  rw [List.mem_singleton.mp firstMember, List.mem_singleton.mp secondMember]

/-- Edits of the same span in an amendment are the same, if no two of them are insertions. -/
theorem Amends.eq_of_span_eq {offset : Nat} {old new : List Char} {edits : List Edit}
    (amends : Amends offset old edits new) (oneInsertion : OneInsertion edits)
    {first second : Edit} (firstMember : first ∈ edits) (secondMember : second ∈ edits)
    (same : first.span = second.span) : first = second := by
  have alone : edits.Pairwise fun one other =>
      one.span = other.span → one = other ∨ one.span.isEmpty = true := by
    refine amends.ordered.imp fun {one other} ends spans => Or.inr ?_
    have := one.span.ordered
    simp only [Span.isEmpty, beq_iff_eq]
    rw [← spans] at ends
    omega
  have reversed : edits.Pairwise fun one other =>
      other.span = one.span → other = one ∨ other.span.isEmpty = true := by
    refine alone.imp fun {one other} related spans => ?_
    rcases related spans.symm with equal | empty
    · exact Or.inl equal.symm
    · exact Or.inr (by rw [spans]; exact empty)
  have related := alone.forall_of_forall_of_flip (fun _ _ _ => Or.inl rfl) reversed
  rcases related firstMember secondMember same with equal | empty
  · exact equal
  · exact oneInsertion first firstMember second secondMember empty (by rw [← same]; exact empty)

/-- The edits of an amendment are found by sorting. -/
theorem Amends.sort {offset : Nat} {old new : List Char} {edits : List Edit} {set : EditSet}
    (amends : Amends offset old edits new) (same : set.added.Perm edits)
    (oneInsertion : OneInsertion set.added) : set.edits = edits := by
  have oneInsertion' : OneInsertion edits := fun first firstMember second secondMember =>
    oneInsertion first (same.mem_iff.mpr firstMember) second (same.mem_iff.mpr secondMember)
  have sorted : edits.Pairwise fun first second => Edit.le first second = true := by
    refine amends.ordered.imp fun {first second} ends => Edit.le_iff.mpr ?_
    have := first.span.ordered
    have := second.span.ordered
    omega
  refine List.Perm.eq_of_pairwise (fun first second firstMember secondMember le ge => ?_)
    set.edits_pairwise sorted (set.edits_perm.trans same)
  refine amends.eq_of_span_eq oneInsertion' ?_ secondMember (Edit.span_eq_of_le le ge)
  exact same.mem_iff.mp (set.edits_perm.mem_iff.mp firstMember)

/-- If the edits of a set are in their order an amendment of the whole text, the set gives the new
text. -/
theorem Amends.applyTo {set : EditSet} {text : String} {new : List Char}
    (amends : Amends 0 text.toList set.edits new) :
    set.applyTo text = .ok (String.ofList new) := by
  have made := @Amends.applyFrom [] _ _ _ (by simpa using amends)
  rw [List.nil_append, Text.size_nil] at made
  rw [EditSet.applyTo, made]
  rfl

/-- A set that holds the edits of an amendment of the whole text gives the new text. -/
theorem applyTo_of_amends {set : EditSet} {text : String} {edits : List Edit} {new : List Char}
    (amends : Amends 0 text.toList edits new) (same : set.added.Perm edits)
    (oneInsertion : OneInsertion set.added) :
    set.applyTo text = .ok (String.ofList new) := by
  rw [← amends.sort same oneInsertion] at amends
  exact amends.applyTo

end PomLens
