/-
This file says what stands on an agenda, and in which order.

To enter an alarm adds that alarm and nothing else, and to split an agenda takes off its beginning.
So an agenda on which instants ascend and lie ahead stays like that, whatever is entered and
however far time goes.
-/

import Mathlib.Data.List.Perm.Basic
import PomLens.Schedule.Clock

namespace PomLens.Agenda

variable {κ ω ρ : Type}

theorem insert_perm (due : Nat) (alarm : Alarm κ ω ρ) (agenda : Agenda κ ω ρ) :
    (agenda.insert due alarm).Perm ((due, alarm) :: agenda) := by
  induction agenda with
  | nil => exact .refl _
  | cons first rest inductionHypothesis =>
    rw [insert]
    split
    · exact (inductionHypothesis.cons first).trans (.swap _ _ _)
    · exact .refl _

theorem exists_split (instant : Nat) (agenda : Agenda κ ω ρ) :
    ∃ early later, agenda = early ++ later ∧ agenda.split instant = (early.map Prod.snd, later) ∧
      (∀ entry ∈ early, entry.1 ≤ instant) ∧ ∀ entry ∈ later.head?, instant < entry.1 := by
  induction agenda with
  | nil => exact ⟨[], [], rfl, rfl, by simp, by simp⟩
  | cons first rest inductionHypothesis =>
    by_cases isDue : first.1 ≤ instant
    · obtain ⟨early, later, rfl, isSplit, allDue, notDue⟩ := inductionHypothesis
      refine ⟨first :: early, later, rfl, ?_, ?_, notDue⟩
      · rw [split, if_pos isDue, isSplit, List.map_cons]
      · exact List.forall_mem_cons.mpr ⟨isDue, allDue⟩
    · refine ⟨[], first :: rest, rfl, ?_, by simp, ?_⟩
      · rw [split, if_neg isDue, List.map_nil]
      · rintro entry isFirst
        rw [← Option.some.inj isFirst]
        exact Nat.lt_of_not_le isDue

/-- The alarms stand in the order of their instants, and no instant has been missed. -/
structure Ahead (now : Nat) (agenda : Agenda κ ω ρ) : Prop where
  ascending : agenda.Pairwise fun first second => first.1 ≤ second.1
  notPast : ∀ entry ∈ agenda, now ≤ entry.1

variable {now due instant : Nat} {alarm : Alarm κ ω ρ} {agenda : Agenda κ ω ρ}

theorem ahead_nil : Ahead now ([] : Agenda κ ω ρ) :=
  ⟨.nil, by simp⟩

theorem Ahead.insert (ahead : Ahead now agenda) (later : now ≤ due) :
    Ahead now (agenda.insert due alarm) := by
  refine ⟨?_, fun entry member => ?_⟩
  · have ascending := ahead.ascending
    clear ahead
    induction agenda with
    | nil => exact List.pairwise_singleton _ _
    | cons first rest inductionHypothesis =>
      obtain ⟨fromFirst, ascendingRest⟩ := List.pairwise_cons.mp ascending
      rw [Agenda.insert]
      split
      · next notLater =>
        refine List.pairwise_cons.mpr ⟨fun entry member => ?_, inductionHypothesis ascendingRest⟩
        rcases List.mem_cons.mp ((insert_perm due alarm rest).mem_iff.mp member) with rfl | old
        · exact notLater
        · exact fromFirst entry old
      · next isLater =>
        have before : due ≤ first.1 := Nat.le_of_lt (Nat.lt_of_not_le isLater)
        refine List.pairwise_cons.mpr ⟨fun entry member => ?_, ascending⟩
        rcases List.mem_cons.mp member with rfl | old
        · exact before
        · exact Nat.le_trans before (fromFirst entry old)
  · rcases List.mem_cons.mp ((insert_perm due alarm agenda).mem_iff.mp member) with rfl | old
    · exact later
    · exact ahead.notPast entry old

/-- What is not due yet still lies ahead. -/
theorem Ahead.split (ahead : Ahead now agenda) : Ahead instant (agenda.split instant).2 := by
  obtain ⟨early, later, rfl, isSplit, -, notDue⟩ := exists_split instant agenda
  rw [isSplit]
  have ascending := (List.pairwise_append.mp ahead.ascending).2.1
  refine ⟨ascending, fun entry member => ?_⟩
  cases later with
  | nil => cases member
  | cons first rest =>
    have afterInstant := notDue first rfl
    rcases List.mem_cons.mp member with rfl | behind
    · exact Nat.le_of_lt afterInstant
    · exact Nat.le_trans (Nat.le_of_lt afterInstant) ((List.pairwise_cons.mp ascending).1 entry behind)

end PomLens.Agenda
