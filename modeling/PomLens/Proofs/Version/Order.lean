/-
This file proves that versions are in a total preorder.

A segment that one of two versions lacks counts as the number zero, against a number as well as
against a qualifier (`Segment.compareMissing_eq`). So two versions compare as lists of segments do
whose shorter one is filled up with zeros, to whatever length holds both (`compareSegments_eq`).
The laws of a lexicographic order carry over from there.
-/

import PomLens.Version

namespace PomLens

namespace Version

/-! ### Segments -/

instance : Std.TransCmp Segment.compare where
  eq_swap {left right} := by
    cases left <;> cases right
    case number.number => exact Std.OrientedOrd.eq_swap
    case qualifier.qualifier => exact Std.OrientedOrd.eq_swap
    all_goals rfl
  isLE_trans {first second third} early late := by
    cases first <;> cases second <;> cases third
    case number.number.number => exact Std.TransOrd.isLE_trans early late
    case qualifier.qualifier.qualifier => exact Std.TransOrd.isLE_trans early late
    all_goals simp_all [Segment.compare]

/-- A missing segment counts as zero. -/
theorem Segment.compareMissing_eq (segment : Segment) :
    segment.compareMissing = (number 0).compare segment := by
  cases segment with
  | number value => cases value <;> rfl
  | qualifier lowered => rfl

/-! ### Lists of segments -/

/-- Segments with as many zeros behind them as make up the width. -/
def filled (width : Nat) (segments : List Segment) : List Segment :=
  segments.rightpad width (.number 0)

theorem filled_nil_succ (width : Nat) :
    filled (width + 1) [] = .number 0 :: filled width [] := by
  simp [filled, List.rightpad, List.replicate_succ]

theorem filled_cons_succ (width : Nat) (segment : Segment) (segments : List Segment) :
    filled (width + 1) (segment :: segments) = segment :: filled width segments := by
  simp [filled, List.rightpad]

/-- Segments are compared place by place, zeros standing where one list has come to its end. -/
theorem compareSegments_eq {left right : List Segment} {width : Nat} (fits : left.length ≤ width)
    (fits' : right.length ≤ width) :
    compareSegments left right =
      List.compareLex Segment.compare (filled width left) (filled width right) := by
  induction width generalizing left right with
  | zero =>
    obtain rfl := List.eq_nil_of_length_eq_zero (Nat.le_zero.mp fits)
    obtain rfl := List.eq_nil_of_length_eq_zero (Nat.le_zero.mp fits')
    rw [compareSegments]
    rfl
  | succ width inductionHypothesis =>
    cases left with
    | nil =>
      cases right with
      | nil =>
        rw [compareSegments]
        exact Std.ReflCmp.compare_self.symm
      | cons segment rights =>
        rw [compareSegments, filled_nil_succ, filled_cons_succ, List.compareLex_cons_cons,
          Segment.compareMissing_eq, inductionHypothesis (Nat.zero_le _) (Nat.le_of_succ_le_succ fits')]
    | cons segment lefts =>
      cases right with
      | nil =>
        rw [compareSegments, filled_nil_succ, filled_cons_succ, List.compareLex_cons_cons,
          Segment.compareMissing_eq, ← Std.OrientedCmp.eq_swap,
          inductionHypothesis (Nat.le_of_succ_le_succ fits) (Nat.zero_le _)]
      | cons other rights =>
        rw [compareSegments, filled_cons_succ, filled_cons_succ, List.compareLex_cons_cons,
          inductionHypothesis (Nat.le_of_succ_le_succ fits) (Nat.le_of_succ_le_succ fits')]

instance : Std.TransCmp compareSegments where
  eq_swap {left right} := by
    rw [compareSegments_eq (Nat.le_max_left left.length right.length) (Nat.le_max_right _ _),
      compareSegments_eq (Nat.le_max_right left.length right.length) (Nat.le_max_left _ _)]
    exact Std.OrientedCmp.eq_swap
  isLE_trans {first second third} early late := by
    -- All three lists are filled up to one width.
    obtain ⟨width, fits, fits', fits''⟩ :
        ∃ width, first.length ≤ width ∧ second.length ≤ width ∧ third.length ≤ width :=
      ⟨first.length + second.length + third.length, by omega, by omega, by omega⟩
    rw [compareSegments_eq fits fits'] at early
    rw [compareSegments_eq fits' fits''] at late
    rw [compareSegments_eq fits fits'']
    exact Std.TransCmp.isLE_trans early late

instance : Std.TransCmp Version.compare where
  eq_swap {left right} :=
    @Std.OrientedCmp.eq_swap _ compareSegments _ (segments left) (segments right)
  isLE_trans {first second third} :=
    @Std.TransCmp.isLE_trans _ compareSegments _ (segments first) (segments second) (segments third)

end Version

end PomLens
