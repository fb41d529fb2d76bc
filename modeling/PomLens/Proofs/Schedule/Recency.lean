/-
This file proves that the history of run times forgets just the keys that were used least recently.

A trace keeps every sample that was taken up and every look at a key, in the order in which they
happened. The keys of a history are the first of those that the trace has used, the one used last in
front (`recency`), as many as there is room for (`Remembers`). How far behind a key stands there is
the number of other keys that were used since (`idxOf_recency`), and so a key is remembered until as
many others were used as there is room for.
-/

import Mathlib.Data.List.Dedup
import Mathlib.Data.List.Induction
import PomLens.Proofs.Schedule.Traffic

namespace PomLens

/-! ### Traces -/

/-- A look at a key, or a sample that is taken up for it. -/
structure Touch (κ : Type) where
  key : κ
  /-- The time that a work of the key took, in nanoseconds. -/
  sample : Option Nat
  /-- The key had an average already. -/
  known : Bool

namespace Touch

variable {κ : Type} [DecidableEq κ]

/-- A sample is a use of the key, and so is a look at a key that has an average. -/
def isUse (touch : Touch κ) : Bool :=
  touch.sample.isSome || touch.known

/-- With this sample the key gets an average afresh. -/
def creates (touch : Touch κ) : Bool :=
  touch.sample.isSome && !touch.known

/-- The sample, if it is one for the key. -/
def sampleOf? (key : κ) (touch : Touch κ) : Option Nat :=
  if touch.key = key then touch.sample else none

/-- What was done since the last use of a key, the latest first. -/
def sinceUse (trace : List (Touch κ)) (key : κ) : List (Touch κ) :=
  trace.reverse.takeWhile fun touch => !(touch.isUse && touch.key = key)

/-- The other keys that were used since the last use of a key, each once. -/
def usedSince (trace : List (Touch κ)) (key : κ) : List κ :=
  (((sinceUse trace key).filter isUse).map Touch.key).dedup

/-! ### The order of the last uses -/

/-- The keys that were used, the one used last in front. -/
def recency (trace : List (Touch κ)) : List κ :=
  trace.foldl (fun keys touch =>
    if touch.isUse then touch.key :: keys.filter (· ≠ touch.key) else keys) []

theorem recency_append (trace : List (Touch κ)) (touch : Touch κ) :
    recency (trace ++ [touch]) =
      if touch.isUse then touch.key :: (recency trace).filter (· ≠ touch.key)
      else recency trace := by
  simp [recency, List.foldl_append]

theorem nodup_recency (trace : List (Touch κ)) : (recency trace).Nodup := by
  induction trace using List.reverseRecOn with
  | nil => exact List.nodup_nil
  | append_singleton trace touch inductionHypothesis =>
    rw [recency_append]
    split
    · exact List.nodup_cons.mpr ⟨by simp, inductionHypothesis.filter _⟩
    · exact inductionHypothesis

theorem mem_recency (trace : List (Touch κ)) (key : κ) :
    key ∈ recency trace ↔ ∃ touch ∈ trace, touch.isUse = true ∧ touch.key = key := by
  induction trace using List.reverseRecOn with
  | nil => simp [recency]
  | append_singleton trace touch inductionHypothesis =>
    rw [recency_append]
    by_cases used : touch.isUse = true
    · rw [if_pos used]
      by_cases same : touch.key = key
      · subst same
        simp [used]
      · have other : key ≠ touch.key := Ne.symm same
        simp [inductionHypothesis, used, same, other]
    · rw [if_neg used, inductionHypothesis]
      simp [used]

theorem sinceUse_append (trace : List (Touch κ)) (touch : Touch κ) (key : κ) :
    sinceUse (trace ++ [touch]) key =
      if touch.isUse = true ∧ touch.key = key then [] else touch :: sinceUse trace key := by
  rw [sinceUse, List.reverse_append, List.reverse_singleton, List.singleton_append,
    List.takeWhile_cons]
  by_cases used : touch.isUse = true <;> by_cases same : touch.key = key <;>
    simp [used, same, sinceUse]

/-- In front of a key stand those that were used since. -/
theorem mem_takeWhile_recency (trace : List (Touch κ)) (key other : κ) :
    other ∈ (recency trace).takeWhile (· ≠ key) ↔ other ∈ usedSince trace key := by
  rw [usedSince, List.mem_dedup]
  induction trace using List.reverseRecOn with
  | nil => simp [recency, sinceUse]
  | append_singleton trace touch inductionHypothesis =>
    rw [recency_append, sinceUse_append]
    by_cases used : touch.isUse = true
    · by_cases same : touch.key = key
      · simp [used, same]
      · -- Taking another key away does not change where this one stands.
        have alike : (fun found => !decide (found ≠ touch.key) || decide (found ≠ key)) =
            fun found => decide (found ≠ key) := by
          funext found
          by_cases isKey : found = key
          · simp [isKey, Ne.symm same]
          · simp [isKey]
        rw [if_pos used, if_neg fun both => same both.2,
          List.takeWhile_cons_of_pos (by simpa using same), List.takeWhile_filter, alike,
          List.filter_cons_of_pos used, List.map_cons, List.mem_cons, List.mem_cons,
          ← inductionHypothesis, List.mem_filter]
        by_cases isNew : other = touch.key <;> simp [isNew]
    · rw [if_neg used, if_neg fun both => used both.1, List.filter_cons_of_neg used]
      exact inductionHypothesis

/-- A key stands behind as many others as were used since. -/
theorem idxOf_recency (trace : List (Touch κ)) (key : κ) :
    (recency trace).idxOf key = (usedSince trace key).length := by
  have same : ((recency trace).takeWhile (· ≠ key)).Perm (usedSince trace key) :=
    (List.perm_ext_iff_of_nodup ((nodup_recency trace).sublist (List.takeWhile_sublist _))
      (List.nodup_dedup _)).mpr fun other => mem_takeWhile_recency trace key other
  have alike : (fun found => !decide (found ≠ key)) = (· == key) := by
    funext found
    by_cases isKey : found = key <;> simp [isKey]
  rw [← same.length_eq, List.takeWhile_eq_take_findIdx_not, List.length_take, alike]
  exact (Nat.min_eq_left List.findIdx_le_length).symm

end Touch

/-! ### Histories -/

namespace History

open Touch

variable {κ : Type} [DecidableEq κ]

/-- The keys with an average. -/
def keys (history : History κ) : List κ :=
  history.entries.map Prod.fst

theorem isSome_get?_iff {history : History κ} {key : κ} :
    (history.get? key).isSome ↔ key ∈ history.keys := by
  rw [get?, List.lookup_isSome_iff, keys, List.mem_map]
  exact exists_congr fun entry => and_congr_right fun _ => by rw [beq_iff_eq, eq_comm]

theorem keys_others (history : History κ) (key : κ) :
    (history.others key).map Prod.fst = history.keys.filter (· ≠ key) := by
  rw [others, keys, List.filter_map]
  rfl

/-- In a list that is cut off, no more room is needed where a key is taken away. -/
theorem take_filter_take {keys : List κ} (once : keys.Nodup) (key : κ) (room : Nat) :
    ((keys.take (room + 1)).filter (· ≠ key)).take room = (keys.filter (· ≠ key)).take room := by
  induction keys generalizing room with
  | nil => simp
  | cons first rest inductionHypothesis =>
    obtain ⟨notAgain, once⟩ := List.nodup_cons.mp once
    rw [List.take_succ_cons]
    by_cases same : first = key
    · -- The key stands nowhere else, and what is behind it moves up by one.
      have all : ∀ found ∈ rest, decide (found ≠ key) = true := by
        intro found member
        simp only [decide_eq_true_eq]
        rintro rfl
        exact notAgain (same ▸ member)
      rw [List.filter_cons_of_neg (by simpa using same),
        List.filter_cons_of_neg (by simpa using same), List.filter_eq_self.mpr all,
        List.filter_eq_self.mpr fun found member => all found (List.mem_of_mem_take member),
        List.take_take, Nat.min_self]
    · rw [List.filter_cons_of_pos (by simpa using same),
        List.filter_cons_of_pos (by simpa using same)]
      cases room with
      | zero => rfl
      | succ room => rw [List.take_succ_cons, List.take_succ_cons, inductionHypothesis once]

variable (history : History κ) (key other : κ) (sample : Float)

theorem keys_use (known : (history.get? key).isSome) :
    (history.use key).1.keys = key :: history.keys.filter (· ≠ key) := by
  obtain ⟨average, found⟩ := Option.isSome_iff_exists.mp known
  rw [← keys_others, use, found]
  rfl

theorem use_of_unknown (unknown : history.get? key = none) : (history.use key).1 = history := by
  rw [use, unknown]

theorem use_snd : (history.use key).2 = history.get? key := by
  cases found : history.get? key <;> rw [use, found]

theorem capacity_use : (history.use key).1.capacity = history.capacity := by
  rw [use]
  split <;> rfl

/-- A look takes no average away. -/
theorem get?_use : (history.use key).1.get? other = history.get? other := by
  cases found : history.get? key with
  | none => rw [use_of_unknown history key found]
  | some average =>
    rw [use, found]
    show List.lookup other ((key, average) :: history.others key) = _
    rw [List.lookup_cons, others, lookup_filter_ne]
    by_cases same : other = key
    · subst same
      simp [found]
    · have different : (other == key) = false := by simpa using same
      simp only [different, same, ↓reduceIte]
      rfl

theorem entries_record :
    (history.record key sample).entries =
      ((key, ((history.get? key).getD .empty).push sample) :: history.others key).take
        history.capacity :=
  rfl

theorem keys_record :
    (history.record key sample).keys =
      (key :: history.keys.filter (· ≠ key)).take history.capacity := by
  rw [← keys_others, keys, entries_record, List.map_take]
  rfl

/-- The sample is pushed into the key's average. -/
theorem get?_record (room : 0 < history.capacity) :
    (history.record key sample).get? key =
      some (((history.get? key).getD .empty).push sample) := by
  obtain ⟨others, more⟩ := Nat.exists_eq_succ_of_ne_zero (Nat.pos_iff_ne_zero.mp room)
  rw [get?, entries_record, more, List.take_succ_cons, List.lookup_cons, beq_self_eq_true]

/-- Another key keeps its average, if it is not forgotten. -/
theorem get?_of_record {average : Average} (different : other ≠ key)
    (found : (history.record key sample).get? other = some average) :
    history.get? other = some average := by
  rw [get?, entries_record] at found
  have isOther : (other == key) = false := by simpa using different
  have kept := lookup_of_take found
  rwa [List.lookup_cons, isOther, others, lookup_filter_ne, if_neg different] at kept

end History

/-! ### What is remembered -/

open Touch

variable {κ : Type} [DecidableEq κ]

/-- Nanoseconds as milliseconds: the whole seconds and the rest of a second, together times a
thousand. -/
def inMilliseconds (nanoseconds : Nat) : Float :=
  (Float.ofNat (nanoseconds / 1000000000) +
    Float.ofNat (nanoseconds % 1000000000) / 1000000000) * 1000

theorem milliseconds_eq (nanoseconds : Nat) :
    milliseconds nanoseconds = inMilliseconds nanoseconds := rfl

/-- An average with one more sample, which is taken in milliseconds. -/
def Average.take (average : Average) (nanoseconds : Nat) : Average :=
  average.push (inMilliseconds nanoseconds)

/-- The average is that of the samples since the key got one afresh. -/
def Averages (trace : List (Touch κ)) (key : κ) (average : Average) : Prop :=
  ∃ before created after, trace = before ++ created :: after ∧ created.key = key ∧
    created.creates = true ∧ (∀ touch ∈ after, touch.key = key → touch.creates = false) ∧
    average = ((created :: after).filterMap (sampleOf? key)).foldl Average.take .empty

theorem Averages.append {trace : List (Touch κ)} {key : κ} {average : Average}
    (averages : Averages trace key average) (touch : Touch κ)
    (continues : touch.key = key → touch.creates = false) :
    Averages (trace ++ [touch]) key
      ((touch.sampleOf? key).toList.foldl Average.take average) := by
  obtain ⟨before, created, after, rfl, isKey, creates, none, rfl⟩ := averages
  refine ⟨before, created, after ++ [touch], by simp, isKey, creates, ?_, ?_⟩
  · intro other member
    rcases List.mem_append.mp member with old | new
    · exact none other old
    · rw [List.mem_singleton.mp new]
      exact continues
  · rw [← List.cons_append, List.filterMap_append, List.foldl_append]
    cases isSample : touch.sampleOf? key <;> simp [List.filterMap_cons, isSample]

/-- What the trace has used last has an average, as far as there is room. -/
structure Remembers (trace : List (Touch κ)) (history : History κ) : Prop where
  room : 0 < history.capacity
  keys : history.keys = (recency trace).take history.capacity
  average : ∀ key average, history.get? key = some average → Averages trace key average
  /-- A key that has an average was recorded. -/
  recorded : ∀ key ∈ recency trace, ∃ touch ∈ trace, touch.key = key ∧ touch.sample.isSome = true

namespace Remembers

variable {trace : List (Touch κ)} {history : History κ} (remembers : Remembers trace history)

include remembers

/-- A key that is used comes to the front. -/
theorem take_used {touch : Touch κ} (used : touch.isUse = true) :
    (touch.key :: history.keys.filter (· ≠ touch.key)).take history.capacity =
      (recency (trace ++ [touch])).take history.capacity := by
  obtain ⟨room, isRoom⟩ := Nat.exists_eq_succ_of_ne_zero (Nat.pos_iff_ne_zero.mp remembers.room)
  rw [recency_append, if_pos used, remembers.keys, isRoom, List.take_succ_cons, List.take_succ_cons,
    History.take_filter_take (nodup_recency trace)]

/-- A key with an average was used. -/
theorem mem_recency_of_mem_keys {key : κ} (member : key ∈ history.keys) : key ∈ recency trace := by
  rw [remembers.keys] at member
  exact List.mem_of_mem_take member

/-- A key is remembered until as many others were used as there is room for. -/
theorem mem_keys_iff {key : κ} :
    key ∈ history.keys ↔ (∃ touch ∈ trace, touch.key = key ∧ touch.sample.isSome = true) ∧
      (usedSince trace key).length < history.capacity := by
  rw [remembers.keys, ← idxOf_recency]
  constructor
  · intro member
    have used := List.mem_of_mem_take member
    exact ⟨remembers.recorded key used, (List.mem_take_iff_idxOf_lt used).mp member⟩
  · rintro ⟨⟨touch, inTrace, isKey, isSample⟩, recent⟩
    have used : key ∈ recency trace :=
      (mem_recency trace key).mpr ⟨touch, inTrace, by simp [isUse, isSample], isKey⟩
    exact (List.mem_take_iff_idxOf_lt used).mpr recent

theorem step {touch : Touch κ} {next : History κ} (capacity : next.capacity = history.capacity)
    (keys : next.keys = (recency (trace ++ [touch])).take history.capacity)
    (average : ∀ key average, next.get? key = some average →
      Averages (trace ++ [touch]) key average)
    (recorded : touch.isUse = true → touch.sample.isSome = true ∨ touch.key ∈ recency trace) :
    Remembers (trace ++ [touch]) next := by
  refine ⟨capacity ▸ remembers.room, capacity ▸ keys, average, fun key member => ?_⟩
  have before (old : key ∈ recency trace) :
      ∃ first ∈ trace ++ [touch], first.key = key ∧ first.sample.isSome = true := by
    obtain ⟨first, inTrace, isFirst⟩ := remembers.recorded key old
    exact ⟨first, List.mem_append_left _ inTrace, isFirst⟩
  rw [recency_append] at member
  split at member
  · next used =>
    rcases List.mem_cons.mp member with rfl | old
    · exact (recorded used).elim (fun isSample => ⟨touch, by simp, rfl, isSample⟩) before
    · exact before (List.mem_of_mem_filter old)
  · exact before member

/-- Looking at a key is remembered as a use if the key has an average. -/
theorem look (key : κ) :
    Remembers (trace ++ [⟨key, none, (history.get? key).isSome⟩]) (history.use key).1 := by
  refine remembers.step (History.capacity_use history key) ?_ ?_ ?_
  · cases found : history.get? key with
    | none =>
      rw [History.use_of_unknown history key found, recency_append, if_neg (by simp [isUse])]
      exact remembers.keys
    | some average =>
      -- The key stood among the others, so moving it to the front takes no more room.
      have known : (history.get? key).isSome := by simp [found]
      have member := History.isSome_get?_iff.mp known
      have shorter : (history.keys.filter (· ≠ key)).length < history.keys.length :=
        List.length_filter_lt_length_iff_exists.mpr ⟨key, member, by simp⟩
      have bounded := congrArg List.length remembers.keys
      rw [List.length_take] at bounded
      have used : Touch.isUse ⟨key, none, (some average).isSome⟩ = true := rfl
      rw [← remembers.take_used used, History.keys_use history key known]
      refine (List.take_of_length_le ?_).symm
      rw [List.length_cons]
      omega
  · intro other average found
    rw [History.get?_use] at found
    have kept := (remembers.average other average found).append
      ⟨key, none, (history.get? key).isSome⟩ fun _ => rfl
    simpa [sampleOf?] using kept
  · intro used
    have known : (history.get? key).isSome := by simpa [isUse] using used
    exact Or.inr (remembers.mem_recency_of_mem_keys (History.isSome_get?_iff.mp known))

/-- A sample is remembered, and goes into the average of its key alone. -/
theorem record (key : κ) (nanoseconds : Nat) :
    Remembers (trace ++ [⟨key, some nanoseconds, (history.get? key).isSome⟩])
      (history.record key (milliseconds nanoseconds)) := by
  rw [milliseconds_eq]
  refine remembers.step rfl ?_ ?_ fun _ => Or.inl rfl
  · rw [← remembers.take_used rfl, History.keys_record]
  · intro other average found
    by_cases same : other = key
    · subst same
      rw [History.get?_record _ _ _ remembers.room] at found
      obtain rfl := Option.some.inj found
      cases known : history.get? other with
      | none =>
        exact ⟨trace, ⟨other, some nanoseconds, false⟩, [], rfl, rfl, rfl, by simp,
          by simp [sampleOf?, Average.take]⟩
      | some old =>
        have kept := (remembers.average other old known).append ⟨other, some nanoseconds, true⟩
          fun _ => rfl
        simpa [sampleOf?, Average.take] using kept
    · have old := remembers.average other average
        (History.get?_of_record history key other _ same found)
      have kept := old.append ⟨key, some nanoseconds, (history.get? key).isSome⟩
        fun isKey => absurd isKey.symm same
      simpa [sampleOf?, Ne.symm same] using kept

end Remembers

/-! ### Traced runs -/

theorem DelaySettings.floor_le_delay (settings : DelaySettings) (average : Float) :
    settings.floor ≤ settings.delay average := by
  rw [delay]
  split
  · exact Nat.le_refl _
  · exact Nat.le_max_right _ _

namespace Traffic

variable (settings : DelaySettings) (trace : List (Touch κ)) (traffic next : Traffic κ)

/-- A key is looked at now. -/
def lookAt (key : κ) : Touch κ :=
  ⟨key, none, (traffic.debouncer.history.get? key).isSome⟩

/-- A time that a work of a key took is taken up now. -/
def sampleFor (key : κ) (nanoseconds : Nat) : Touch κ :=
  ⟨key, some nanoseconds, (traffic.debouncer.history.get? key).isSome⟩

/-- The steps that touch the history. To schedule a work, its key is looked at. -/
inductive Touches (traffic : Traffic κ) : Touch κ → Traffic κ → Prop
  | scheduled (inUse : traffic.inUse = true) (key : κ) :
      Touches traffic (traffic.lookAt key) (traffic.schedule key)
  | looked (inUse : traffic.inUse = true) (key : κ) :
      Touches traffic (traffic.lookAt key)
        { traffic with debouncer := (traffic.debouncer.delayFor key).1 }
  | recorded (inUse : traffic.inUse = true) (key : κ) (nanoseconds : Nat) :
      Touches traffic (traffic.sampleFor key nanoseconds)
        { traffic with debouncer := traffic.debouncer.record key nanoseconds }
  | completed {job : Job κ} {started : Nat} {rest : List (Job κ × Nat)}
      (underWay : traffic.running.Perm ((job, started) :: rest)) :
      Touches traffic (traffic.sampleFor job.key (traffic.now - started))
        { traffic with
          debouncer := traffic.debouncer.record job.key (traffic.now - started)
          running := rest }

/-- A run, with what it did to the history. -/
inductive Traced (settings : DelaySettings) : List (Touch κ) → Traffic κ → Prop
  | start (now : Nat) : Traced settings [] (start settings now)
  | touched {trace : List (Touch κ)} {traffic next : Traffic κ} {touch : Touch κ}
      (traced : Traced settings trace traffic) (touches : Touches traffic touch next) :
      Traced settings (trace ++ [touch]) next
  /-- All other steps leave the history alone. -/
  | quiet {trace : List (Touch κ)} {traffic next : Traffic κ} {about : Option κ}
      (traced : Traced settings trace traffic) (step : Step traffic about next)
      (untouched : next.debouncer.history = traffic.debouncer.history) :
      Traced settings trace next

variable {settings trace traffic next}

/-- A timer that runs down does not touch the history. -/
theorem debouncer_expire (job : Job κ) :
    (traffic.expire job).debouncer.history = traffic.debouncer.history ∧
      (traffic.expire job).debouncer.settings = traffic.debouncer.settings := by
  rcases traffic.expire_cases job with ⟨-, same⟩ | ⟨debouncer, expires, same⟩
  · rw [same]
    exact ⟨rfl, rfl⟩
  · rw [same]
    rw [Debouncer.expire?] at expires
    split at expires
    · cases expires
      exact ⟨rfl, rfl⟩
    · cases expires

/-- Every step touches the history or leaves it alone. -/
theorem Step.touches {about : Option κ} (step : Step traffic about next) :
    (∃ touch, Touches traffic touch next) ∨
      next.debouncer.history = traffic.debouncer.history := by
  cases step with
  | scheduled inUse key => exact Or.inl ⟨_, .scheduled inUse key⟩
  | looked inUse key => exact Or.inl ⟨_, .looked inUse key⟩
  | recorded inUse key nanoseconds => exact Or.inl ⟨_, .recorded inUse key nanoseconds⟩
  | completed underWay => exact Or.inl ⟨_, .completed underWay⟩
  | expired _ _ => exact Or.inr (debouncer_expire _).1
  | cancelled _ _ => exact Or.inr rfl
  | armed _ => exact Or.inr rfl
  | stopped _ _ => exact Or.inr rfl
  | waited _ => exact Or.inr rfl
  | dropped _ => exact Or.inr rfl

theorem Step.settings_eq {about : Option κ} (step : Step traffic about next) :
    next.debouncer.settings = traffic.debouncer.settings := by
  cases step with
  | expired _ _ => exact (debouncer_expire _).2
  | _ => rfl

/-- Every run has a trace. -/
theorem exists_traced {settings : DelaySettings} {now : Nat} {traffic : Traffic κ}
    (steps : Relation.ReflTransGen Goes (start settings now) traffic) :
    ∃ trace, Traced settings trace traffic := by
  induction steps with
  | refl => exact ⟨[], .start now⟩
  | tail _ goes inductionHypothesis =>
    obtain ⟨trace, traced⟩ := inductionHypothesis
    obtain ⟨about, step⟩ := goes
    rcases step.touches with ⟨touch, touches⟩ | untouched
    · exact ⟨trace ++ [touch], traced.touched touches⟩
    · exact ⟨trace, traced.quiet step untouched⟩

/-! ### The history of a run -/

/-- What a touch does to what is remembered. -/
theorem Touches.remembers {touch : Touch κ} (touches : Touches traffic touch next)
    (remembers : Remembers trace traffic.debouncer.history) :
    Remembers (trace ++ [touch]) next.debouncer.history := by
  cases touches with
  | scheduled _ key => exact remembers.look key
  | looked _ key => exact remembers.look key
  | recorded _ key nanoseconds => exact remembers.record key nanoseconds
  | completed _ => exact remembers.record _ _

theorem Touches.kept {touch : Touch κ} (touches : Touches traffic touch next) :
    next.debouncer.settings = traffic.debouncer.settings ∧
      next.debouncer.history.capacity = traffic.debouncer.history.capacity := by
  cases touches with
  | scheduled _ key => exact ⟨rfl, History.capacity_use _ key⟩
  | looked _ key => exact ⟨rfl, History.capacity_use _ key⟩
  | recorded _ _ _ => exact ⟨rfl, rfl⟩
  | completed _ => exact ⟨rfl, rfl⟩

/-- What is known of the history of a run. -/
structure Recalls (settings : DelaySettings) (trace : List (Touch κ)) (debouncer : Debouncer κ) :
    Prop where
  isSettings : debouncer.settings = settings
  isCapacity : debouncer.history.capacity = max 1 settings.capacity
  remembers : Remembers trace debouncer.history

theorem Traced.recalls (traced : Traced settings trace traffic) :
    Recalls settings trace traffic.debouncer := by
  induction traced with
  | start now =>
    have empty : Remembers [] (History.new settings.capacity : History κ) :=
      ⟨Nat.le_max_left 1 _, by simp [recency, History.new, History.keys],
        fun _ _ found => (by cases found), fun _ member => (by cases member)⟩
    exact ⟨rfl, rfl, empty⟩
  | touched _ touches inductionHypothesis =>
    obtain ⟨sameSettings, sameCapacity⟩ := touches.kept
    exact ⟨sameSettings.trans inductionHypothesis.isSettings,
      sameCapacity.trans inductionHypothesis.isCapacity,
      touches.remembers inductionHypothesis.remembers⟩
  | quiet _ step untouched inductionHypothesis =>
    exact ⟨step.settings_eq.trans inductionHypothesis.isSettings,
      untouched ▸ inductionHypothesis.isCapacity, untouched ▸ inductionHypothesis.remembers⟩

/-- The run times of the keys used last are averaged, and delays are scaled from the averages. -/
structure LeastRecent (settings : DelaySettings) (trace : List (Touch κ))
    (debouncer : Debouncer κ) : Prop where
  /-- A key has an average if a time was recorded for it and there is room for it and for the other
  keys that were used since its own last use. -/
  remembered : ∀ key, (debouncer.history.get? key).isSome ↔
    (∃ touch ∈ trace, touch.key = key ∧ touch.sample.isSome = true) ∧
      (usedSince trace key).length < max 1 settings.capacity
  average : ∀ key average, debouncer.history.get? key = some average → Averages trace key average
  /-- A key without an average is taken for one whose works took no time. -/
  scaled : ∀ key, (debouncer.delayFor key).2 =
      settings.delay (((debouncer.history.get? key).map Average.value).getD 0) ∧
    (debouncer.schedule key).2.delay = (debouncer.delayFor key).2
  floor : ∀ key, settings.floor ≤ (debouncer.delayFor key).2
  /-- Looking at a key without an average does nothing. -/
  nothing : ∀ key, debouncer.history.get? key = none →
    (debouncer.delayFor key).1 = debouncer ∧
      (debouncer.schedule key).1.history = debouncer.history

/-- Whatever a debouncer did, it has the averages of the keys that were used last. -/
theorem leastRecent_of_traced (settings : DelaySettings) (trace : List (Touch κ))
    (traffic : Traffic κ) (traced : Traced settings trace traffic) :
    LeastRecent settings trace traffic.debouncer := by
  obtain ⟨isSettings, isCapacity, remembers⟩ := traced.recalls
  have looked : ∀ key, (traffic.debouncer.delayFor key).2 =
      settings.delay (((traffic.debouncer.history.get? key).map Average.value).getD 0) := by
    intro key
    rw [← isSettings, ← History.use_snd]
    rfl
  refine ⟨fun key => ?_, remembers.average, fun key => ⟨looked key, rfl⟩, fun key => ?_,
    fun key unknown => ?_⟩
  · rw [History.isSome_get?_iff, remembers.mem_keys_iff, isCapacity]
  · rw [looked]
    exact settings.floor_le_delay _
  · have same := History.use_of_unknown _ _ unknown
    refine ⟨?_, same⟩
    show { traffic.debouncer with history := (traffic.debouncer.history.use key).1 } = _
    rw [same]

/-- With room for two, a key that was looked at is kept, and the other one is forgotten. -/
theorem leastRecent_of_traced_keptWarm :
    let settings : DelaySettings := ⟨350, 1.3, 2⟩
    let sample (key nanoseconds : Nat) : Touch Nat := ⟨key, some nanoseconds, false⟩
    let trace := [sample 0 7, sample 1 8, ⟨0, none, true⟩, sample 2 9]
    ∃ traffic : Traffic Nat, Traced settings trace traffic ∧
      (traffic.debouncer.history.get? 0).isSome ∧ traffic.debouncer.history.get? 1 = none ∧
      settings.floor ≤ (traffic.debouncer.delayFor 0).2 ∧
      (traffic.debouncer.delayFor 1).2 = settings.delay 0 := by
  intro settings sample trace
  have traced : ∃ traffic, Traced settings trace traffic :=
    ⟨_, .touched (.touched (.touched (.touched (.start 0) (.recorded rfl 0 7)) (.recorded rfl 1 8))
      (.looked rfl 0)) (.recorded rfl 2 9)⟩
  obtain ⟨traffic, traced⟩ := traced
  have recent : LeastRecent settings trace traffic.debouncer :=
    leastRecent_of_traced settings trace traffic traced
  have forgotten : traffic.debouncer.history.get? 1 = none :=
    Option.not_isSome_iff_eq_none.mp fun known =>
      absurd ((recent.remembered 1).mp known).2 (by decide)
  have kept : (traffic.debouncer.history.get? 0).isSome :=
    (recent.remembered 0).mpr ⟨⟨sample 0 7, by simp [trace], rfl, rfl⟩, by decide⟩
  refine ⟨traffic, traced, kept, forgotten, recent.floor 0, ?_⟩
  rw [(recent.scaled 1).1, forgotten]
  rfl

end Traffic

end PomLens
