/-
This file proves what a debouncer guarantees, in whatever order its timers run down.

Every work has a token of its own, and for each key the token of at most one work waits. The works
that wait are exactly those after whose scheduling nothing ended their waiting: neither a later
work of the same key, nor giving up, nor their own start (`Waits`). So a timer that runs down
starts its work only if nothing else came before (`safe_of_reachable`). That a stopped timer may
run down before it is stopped makes no difference.
-/

import Mathlib
import PomLens.Proofs.Schedule.Traffic

namespace PomLens

variable {κ : Type}

/-! ### Histories -/

namespace Incident

/-- The work that was scheduled. -/
def scheduled? : Incident κ → Option (Job κ)
  | scheduled job => some job
  | _ => none

/-- The work that was started. -/
def started? : Incident κ → Option (Job κ)
  | started job _ => some job
  | _ => none

theorem scheduled?_eq_some {incident : Incident κ} {job : Job κ} :
    incident.scheduled? = some job ↔ incident = .scheduled job := by
  cases incident <;> simp [scheduled?]

/-- The work waits no longer after this: another one took its place, it was given up, or it
started. -/
def Ends (job : Job κ) : Incident κ → Prop
  | scheduled other => other.key = job.key
  | cancelled key _ => key = job.key
  | started other _ => other = job
  | dropped => True

end Incident

namespace Traffic

/-- All works that were scheduled, in their order. -/
def jobs (history : List (Incident κ)) : List (Job κ) :=
  history.filterMap Incident.scheduled?

/-- All works that were started, in their order. -/
def starts (history : List (Incident κ)) : List (Job κ) :=
  history.filterMap Incident.started?

@[simp] theorem jobs_append (first second : List (Incident κ)) :
    jobs (first ++ second) = jobs first ++ jobs second :=
  List.filterMap_append

@[simp] theorem starts_append (first second : List (Incident κ)) :
    starts (first ++ second) = starts first ++ starts second :=
  List.filterMap_append

theorem mem_jobs {history : List (Incident κ)} {job : Job κ} :
    job ∈ jobs history ↔ .scheduled job ∈ history := by
  simp [jobs, List.mem_filterMap, Incident.scheduled?_eq_some]

/-- A member of a history that has grown by one is the new one or was there before. -/
theorem append_singleton_eq {history early late : List (Incident κ)} {last incident : Incident κ}
    (whole : history ++ [last] = early ++ incident :: late) :
    late = [] ∧ history = early ∧ last = incident ∨
      ∃ shorter, late = shorter ++ [last] ∧ history = early ++ incident :: shorter := by
  rcases List.eq_nil_or_concat late with rfl | ⟨shorter, final, rfl⟩
  · obtain ⟨same, isLast⟩ := List.append_inj' whole rfl
    simp only [List.cons.injEq, and_true] at isLast
    exact Or.inl ⟨rfl, same, isLast⟩
  · rw [List.concat_eq_append, ← List.cons_append, ← List.append_assoc] at whole
    obtain ⟨same, isLast⟩ := List.append_inj' whole rfl
    simp only [List.cons.injEq, and_true] at isLast
    exact Or.inr ⟨shorter, by rw [isLast, List.concat_eq_append], same⟩

/-- The work was scheduled, and nothing has ended its waiting since. -/
def Waits (history : List (Incident κ)) (job : Job κ) : Prop :=
  ∃ before since, history = before ++ .scheduled job :: since ∧
    ∀ incident ∈ since, ¬ incident.Ends job

theorem Waits.mem_jobs {history : List (Incident κ)} {job : Job κ} (waits : Waits history job) :
    job ∈ jobs history := by
  obtain ⟨before, since, rfl, -⟩ := waits
  simp [jobs, Incident.scheduled?]

/-- Who waits after one more incident: those who waited and are not concerned, and who has just
been scheduled. -/
theorem waits_append {history : List (Incident κ)} {last : Incident κ} {job : Job κ} :
    Waits (history ++ [last]) job ↔
      Waits history job ∧ ¬ last.Ends job ∨ last = .scheduled job := by
  constructor
  · rintro ⟨before, since, whole, unended⟩
    rcases append_singleton_eq whole with ⟨-, -, same⟩ | ⟨shorter, rfl, earlier⟩
    · exact Or.inr same
    · refine Or.inl ⟨⟨before, shorter, earlier, fun incident member => ?_⟩, ?_⟩
      · exact unended incident (List.mem_append_left _ member)
      · exact unended last (by simp)
  · rintro (⟨⟨before, since, rfl, unended⟩, unconcerned⟩ | rfl)
    · refine ⟨before, since ++ [last], by simp, fun incident member => ?_⟩
      rcases List.mem_append.mp member with old | new
      · exact unended incident old
      · rw [List.mem_singleton.mp new]
        exact unconcerned
    · exact ⟨history, [], rfl, by simp⟩

/-- What the history before an incident says. -/
def Allows (early : List (Incident κ)) : Incident κ → Prop
  | .started job instant => Waits early job ∧ job.due ≤ instant
  | .cancelled key was => was = true ↔ ∃ job, job.key = key ∧ Waits early job
  | _ => True

/-- Every incident was allowed when it happened. -/
def Lawful (history : List (Incident κ)) : Prop :=
  ∀ early incident late, history = early ++ incident :: late → Allows early incident

theorem Lawful.append {history : List (Incident κ)} (lawful : Lawful history)
    {last : Incident κ} (allowed : Allows history last) : Lawful (history ++ [last]) := by
  intro early incident late whole
  rcases append_singleton_eq whole with ⟨-, same, isLast⟩ | ⟨shorter, -, earlier⟩
  · exact same ▸ isLast ▸ allowed
  · exact lawful early incident shorter earlier

/-- What waits was not started: it would have had to wait, and so to be scheduled, before. -/
theorem not_mem_starts_of_waits {history : List (Incident κ)} (lawful : Lawful history)
    (distinct : (jobs history).Nodup) {job : Job κ} (waits : Waits history job) :
    job ∉ starts history := by
  intro started
  obtain ⟨before, since, rfl, unended⟩ := waits
  obtain ⟨incident, member, isStart⟩ := List.mem_filterMap.mp started
  obtain ⟨instant, rfl⟩ : ∃ instant, incident = .started job instant := by
    cases incident <;> simp_all [Incident.started?]
  rcases List.mem_append.mp member with old | new
  · obtain ⟨early, late, rfl⟩ := List.append_of_mem old
    have allowed : Allows early (.started job instant) :=
      lawful early _ (late ++ .scheduled job :: since) (by simp)
    have scheduled := allowed.1.mem_jobs
    rw [List.append_assoc, jobs_append] at distinct
    exact (List.nodup_append.mp distinct).2.2 job scheduled job (mem_jobs.mpr (by simp)) rfl
  · rcases List.mem_cons.mp new with same | late
    · cases same
    · exact unended _ late rfl

/-! ### The invariant -/

variable [DecidableEq κ]

/-- The tokens that wait are those of the works that wait. -/
structure Kept (traffic : Traffic κ) : Prop where
  single : (traffic.debouncer.pending.map Prod.fst).Nodup
  tokens : (jobs traffic.history).map (fun job => job.ticket.token) =
    List.range' 1 traffic.debouncer.lastToken
  past : ∀ job ∈ jobs traffic.history, job.since ≤ traffic.now
  pending : ∀ key token, traffic.debouncer.token? key = some token ↔
    ∃ job, job.key = key ∧ job.ticket.token = token ∧ Waits traffic.history job
  timers : ∀ timer ∈ traffic.timers, timer.1 ∈ jobs traffic.history ∧
    ∀ due, timer.2 = some due → timer.1.due ≤ due
  lawful : Lawful traffic.history
  once : (starts traffic.history).Nodup

theorem kept_start (settings : DelaySettings) (now : Nat) :
    Kept (start settings now : Traffic κ) := by
  refine ⟨List.nodup_nil, rfl, by simp [start, jobs], ?_, by simp [start], ?_, List.nodup_nil⟩
  · intro key token
    simp [start, Debouncer.token?, Debouncer.new, Waits]
  · intro early incident late whole
    simp [start] at whole

namespace Kept

variable {traffic : Traffic κ}

/-- Two works have different tokens. -/
theorem eq_of_token_eq (kept : Kept traffic) {first second : Job κ}
    (firstMember : first ∈ jobs traffic.history) (secondMember : second ∈ jobs traffic.history)
    (same : first.ticket.token = second.ticket.token) : first = second := by
  have distinct : ((jobs traffic.history).map fun job => job.ticket.token).Nodup := by
    rw [kept.tokens]
    exact List.nodup_range'
  exact List.inj_on_of_nodup_map distinct firstMember secondMember same

theorem nodup_jobs (kept : Kept traffic) : (jobs traffic.history).Nodup :=
  List.Nodup.of_map (fun job => job.ticket.token) (kept.tokens ▸ List.nodup_range')

/-- A key for which something waits has the token of the work that waits. -/
theorem token?_eq (kept : Kept traffic) {job : Job κ} (waits : Waits traffic.history job) :
    traffic.debouncer.token? job.key = some job.ticket.token :=
  (kept.pending _ _).mpr ⟨job, rfl, rfl, waits⟩

/-- The work whose token waits does wait. -/
theorem waits_of_token? (kept : Kept traffic) {job : Job κ}
    (member : job ∈ jobs traffic.history)
    (pending : traffic.debouncer.token? job.key = some job.ticket.token) :
    Waits traffic.history job := by
  obtain ⟨other, -, sameToken, waits⟩ := (kept.pending _ _).mp pending
  exact kept.eq_of_token_eq waits.mem_jobs member sameToken ▸ waits

/-! ### Steps -/

/-- Nothing changes for works that wait when nothing happens and no timer comes up that was not
there. -/
theorem of_quiet {next : Traffic κ} (kept : Kept traffic)
    (pending : next.debouncer.pending = traffic.debouncer.pending)
    (lastToken : next.debouncer.lastToken = traffic.debouncer.lastToken)
    (history : next.history = traffic.history) (now : traffic.now ≤ next.now)
    (timers : ∀ timer ∈ next.timers, timer.1 ∈ jobs traffic.history ∧
      ∀ due, timer.2 = some due → timer.1.due ≤ due) : Kept next := by
  have token? (key : κ) : next.debouncer.token? key = traffic.debouncer.token? key := by
    rw [Debouncer.token?, Debouncer.token?, pending]
  refine ⟨?_, ?_, ?_, ?_, ?_, ?_, ?_⟩
  · rw [pending]
    exact kept.single
  · rw [history, lastToken]
    exact kept.tokens
  · rw [history]
    exact fun job member => Nat.le_trans (kept.past job member) now
  · intro key token
    rw [token?, history]
    exact kept.pending key token
  · rw [history]
    exact timers
  · rw [history]
    exact kept.lawful
  · rw [history]
    exact kept.once

/-- When the waiting for some keys has ended, nothing waits for them, and all else goes on. -/
theorem of_ended {next : Traffic κ} (kept : Kept traffic) {last : Incident κ} (ended : κ → Prop)
    (history : next.history = traffic.history ++ [last]) (noJob : last.scheduled? = none)
    (allowed : Allows traffic.history last)
    (ends : ∀ job, Waits traffic.history job → (last.Ends job ↔ ended job.key))
    (gone : ∀ key, ended key → next.debouncer.token? key = none)
    (others : ∀ key, ¬ ended key → next.debouncer.token? key = traffic.debouncer.token? key)
    (fewer : next.debouncer.pending.Sublist traffic.debouncer.pending)
    (lastToken : next.debouncer.lastToken = traffic.debouncer.lastToken)
    (now : next.now = traffic.now) (timers : ∀ timer ∈ next.timers, timer ∈ traffic.timers)
    (fresh : ∀ job, last.started? = some job → job ∉ starts traffic.history) : Kept next := by
  have sameJobs : jobs next.history = jobs traffic.history := by
    rw [history, jobs_append]
    simp [jobs, noJob]
  have waits_iff (job : Job κ) :
      Waits next.history job ↔ Waits traffic.history job ∧ ¬ ended job.key := by
    rw [history, waits_append]
    constructor
    · rintro (⟨waits, unended⟩ | rfl)
      · exact ⟨waits, fun isEnded => unended ((ends job waits).mpr isEnded)⟩
      · cases noJob
    · rintro ⟨waits, goesOn⟩
      exact Or.inl ⟨waits, fun isEnded => goesOn ((ends job waits).mp isEnded)⟩
  refine ⟨?_, ?_, ?_, ?_, ?_, ?_, ?_⟩
  · exact kept.single.sublist (fewer.map Prod.fst)
  · rw [sameJobs, lastToken]
    exact kept.tokens
  · rw [sameJobs, now]
    exact kept.past
  · intro key token
    simp only [waits_iff]
    by_cases isEnded : ended key
    · rw [gone key isEnded]
      constructor
      · intro isToken
        cases isToken
      · rintro ⟨job, rfl, -, -, goesOn⟩
        exact absurd isEnded goesOn
    · rw [others key isEnded, kept.pending]
      constructor
      · rintro ⟨job, rfl, isToken, waits⟩
        exact ⟨job, rfl, isToken, waits, isEnded⟩
      · rintro ⟨job, isKey, isToken, waits, -⟩
        exact ⟨job, isKey, isToken, waits⟩
  · rw [sameJobs]
    exact fun timer member => kept.timers timer (timers timer member)
  · rw [history]
    exact kept.lawful.append allowed
  · rw [history, starts_append]
    cases isStart : last.started? with
    | none => simpa [starts, isStart] using kept.once
    | some job =>
      have one : starts [last] = [job] := by simp [starts, isStart]
      rw [one]
      exact kept.once.append (List.nodup_singleton _) (by simpa using fresh job isStart)

/-- A work that is scheduled waits, and takes the place of an older one of its key. -/
theorem scheduled (kept : Kept traffic) (key : κ) : Kept (traffic.schedule key) := by
  have newJobs : jobs (traffic.schedule key).history =
      jobs traffic.history ++ [traffic.nextJob key] := by
    simp [schedule, jobs, Incident.scheduled?]
  have sameStarts : starts (traffic.schedule key).history = starts traffic.history := by
    simp [schedule, starts, Incident.started?]
  have newToken : (traffic.nextJob key).ticket.token = traffic.debouncer.lastToken + 1 := rfl
  refine ⟨?_, ?_, ?_, ?_, ?_, ?_, ?_⟩
  · have pending : (traffic.schedule key).debouncer.pending =
        traffic.debouncer.pendingOthers key ++ [(key, traffic.debouncer.lastToken + 1)] := rfl
    rw [pending, List.map_append, List.nodup_append]
    refine ⟨kept.single.sublist (List.filter_sublist.map _), List.nodup_singleton _, ?_⟩
    rintro other member last isLast rfl
    obtain ⟨entry, isOther, rfl⟩ := List.mem_map.mp member
    simp only [List.map_cons, List.map_nil, List.mem_singleton] at isLast
    simpa [isLast] using (List.mem_filter.mp isOther).2
  · rw [newJobs, List.map_append, kept.tokens, List.map_singleton, newToken]
    have lastToken : (traffic.schedule key).debouncer.lastToken =
        traffic.debouncer.lastToken + 1 := rfl
    rw [lastToken, List.range'_1_concat, Nat.add_comm]
  · rw [newJobs]
    intro job member
    rcases List.mem_append.mp member with old | new
    · exact kept.past job old
    · rw [List.mem_singleton.mp new]
      exact Nat.le_refl _
  · intro other token
    have history : (traffic.schedule key).history =
        traffic.history ++ [.scheduled (traffic.nextJob key)] := rfl
    have token? : (traffic.schedule key).debouncer.token? other =
        if other = key then some (traffic.debouncer.lastToken + 1)
        else traffic.debouncer.token? other := Debouncer.token?_schedule _ _ _
    rw [token?, history]
    simp only [waits_append, Incident.Ends, Incident.scheduled.injEq]
    by_cases own : other = key
    · subst own
      rw [if_pos rfl, Option.some.injEq]
      constructor
      · rintro rfl
        exact ⟨traffic.nextJob other, rfl, rfl, Or.inr rfl⟩
      · rintro ⟨job, isKey, rfl, ⟨-, different⟩ | rfl⟩
        · exact absurd isKey.symm different
        · rfl
    · rw [if_neg own, kept.pending]
      constructor
      · rintro ⟨job, rfl, isToken, waits⟩
        exact ⟨job, rfl, isToken, Or.inl ⟨waits, fun same => own same.symm⟩⟩
      · rintro ⟨job, rfl, isToken, ⟨waits, -⟩ | rfl⟩
        · exact ⟨job, rfl, isToken, waits⟩
        · exact absurd rfl own
  · rw [newJobs]
    intro timer member
    rcases List.mem_append.mp member with old | new
    · exact ⟨List.mem_append_left _ (kept.timers timer old).1, (kept.timers timer old).2⟩
    · rw [List.mem_singleton.mp new]
      refine ⟨by simp, fun due isDue => ?_⟩
      cases isDue
  · exact kept.lawful.append trivial
  · rw [sameStarts]
    exact kept.once

theorem cancelled (kept : Kept traffic) (key : κ) : Kept (traffic.cancel key) := by
  have token? := traffic.debouncer.token?_cancel key
  refine kept.of_ended (· = key) rfl rfl ?_ (fun _ _ => eq_comm) ?_ ?_ List.filter_sublist rfl rfl
    (fun _ => id) nofun
  · -- A token waits for the key exactly if a work does.
    have isPending : (traffic.debouncer.cancel key).2 = true ↔
        ∃ token, traffic.debouncer.token? key = some token := Option.isSome_iff_exists
    simp only [Allows, isPending, kept.pending]
    constructor
    · rintro ⟨token, job, isKey, -, waits⟩
      exact ⟨job, isKey, waits⟩
    · rintro ⟨job, isKey, waits⟩
      exact ⟨_, job, isKey, rfl, waits⟩
  · rintro other rfl
    exact (token? other).trans (if_pos rfl)
  · intro other different
    exact (token? other).trans (if_neg different)

theorem dropped (kept : Kept traffic) : Kept traffic.drop :=
  kept.of_ended (fun _ => True) rfl rfl trivial (fun _ _ => Iff.rfl) (fun _ _ => rfl)
    (fun _ goesOn => absurd trivial goesOn) (List.nil_sublist _) rfl rfl (fun _ => id) nofun

/-- A timer that has run down starts its work only if that waits. -/
theorem expired (kept : Kept traffic) {job : Job κ} {due : Nat}
    {rest : List (Job κ × Option Nat)} (waiting : traffic.timers.Perm ((job, some due) :: rest))
    (isDue : due ≤ traffic.now) : Kept (expire { traffic with timers := rest } job) := by
  have fewer (timer : Job κ × Option Nat) (member : timer ∈ rest) : timer ∈ traffic.timers :=
    waiting.mem_iff.mpr (List.mem_cons_of_mem _ member)
  obtain ⟨isJob, notBefore⟩ :=
    kept.timers (job, some due) (waiting.mem_iff.mpr List.mem_cons_self)
  rcases expire_cases { traffic with timers := rest } job with
    ⟨-, nothing⟩ | ⟨debouncer, starts?, started⟩
  · rw [nothing]
    exact kept.of_quiet rfl rfl rfl (Nat.le_refl _) fun timer member =>
      kept.timers timer (fewer timer member)
  · rw [started]
    obtain ⟨pending, lastToken, token?⟩ := Debouncer.of_expire?_eq_some starts?
    have waits := kept.waits_of_token? isJob pending
    have sublist : debouncer.pending.Sublist traffic.debouncer.pending := by
      rw [Debouncer.expire?, if_pos pending, Option.some.injEq] at starts?
      subst starts?
      exact List.filter_sublist
    refine kept.of_ended (· = job.key) rfl rfl
      ⟨waits, Nat.le_trans (notBefore due rfl) isDue⟩ ?_ ?_ ?_ sublist lastToken rfl fewer ?_
    · intro other otherWaits
      refine ⟨fun same => congrArg Job.key same.symm, fun sameKey => ?_⟩
      have token := kept.token?_eq otherWaits
      rw [sameKey, kept.token?_eq waits, Option.some.injEq] at token
      exact kept.eq_of_token_eq isJob otherWaits.mem_jobs token
    · rintro other rfl
      exact (token? _).trans (if_pos rfl)
    · intro other different
      exact (token? _).trans (if_neg different)
    · rintro other same
      cases same
      exact not_mem_starts_of_waits kept.lawful kept.nodup_jobs waits

theorem step (kept : Kept traffic) {next : Traffic κ} {about : Option κ}
    (step : Step traffic about next) : Kept next := by
  cases step with
  | scheduled inUse key => exact kept.scheduled key
  | cancelled inUse key => exact kept.cancelled key
  | looked inUse key => exact kept.of_quiet rfl rfl rfl (Nat.le_refl _) kept.timers
  | recorded inUse key nanoseconds => exact kept.of_quiet rfl rfl rfl (Nat.le_refl _) kept.timers
  | @armed job rest waiting =>
    have isJob := (kept.timers _ (waiting.mem_iff.mpr List.mem_cons_self)).1
    refine kept.of_quiet rfl rfl rfl (Nat.le_refl _) fun timer member => ?_
    rcases List.mem_cons.mp member with rfl | old
    · refine ⟨isJob, fun due isDue => ?_⟩
      rw [← Option.some.inj isDue]
      exact Nat.add_le_add_right (kept.past job isJob) _
    · exact kept.timers timer (waiting.mem_iff.mpr (List.mem_cons_of_mem _ old))
  | expired waiting isDue => exact kept.expired waiting isDue
  | stopped waiting superseded =>
    exact kept.of_quiet rfl rfl rfl (Nat.le_refl _) fun timer member =>
      kept.timers timer (waiting.mem_iff.mpr (List.mem_cons_of_mem _ member))
  | completed underWay => exact kept.of_quiet rfl rfl rfl (Nat.le_refl _) kept.timers
  | waited duration => exact kept.of_quiet rfl rfl rfl (Nat.le_add_right _ _) kept.timers
  | dropped inUse => exact kept.dropped

end Kept

theorem kept_of_reachable {traffic : Traffic κ} (reachable : traffic.Reachable) : Kept traffic :=
  reachable.induction kept_start fun _ _ _ kept step => kept.step step

/-! ### Other keys -/

omit [DecidableEq κ] in
/-- A timer of another key is behind the first one. -/
theorem mem_cons_iff_of_key_ne {job : Job κ} {due : Option Nat} {timer : Job κ × Option Nat}
    {rest : List (Job κ × Option Nat)} (different : timer.1.key ≠ job.key) :
    timer ∈ (job, due) :: rest ↔ timer ∈ rest := by
  rw [List.mem_cons, or_iff_right]
  rintro rfl
  exact different rfl

/-- A step that is about one key leaves the works of other keys waiting as they are, with their
timers. -/
theorem Step.others {traffic next : Traffic κ} {key other : κ} (step : Step traffic (some key) next)
    (different : other ≠ key) :
    next.debouncer.token? other = traffic.debouncer.token? other ∧
      ∀ timer, timer.1.key = other → (timer ∈ next.timers ↔ timer ∈ traffic.timers) := by
  cases step with
  | scheduled inUse =>
    refine ⟨(Debouncer.token?_schedule _ _ _).trans (if_neg different), ?_⟩
    rintro timer rfl
    have new : (traffic.schedule key).timers =
        traffic.timers ++ [(traffic.nextJob key, none)] := rfl
    rw [new, List.mem_append, or_iff_left]
    intro same
    rw [List.mem_singleton.mp same] at different
    exact different rfl
  | cancelled inUse =>
    exact ⟨(Debouncer.token?_cancel _ _ _).trans (if_neg different), fun _ _ => Iff.rfl⟩
  | looked inUse => exact ⟨rfl, fun _ _ => Iff.rfl⟩
  | recorded inUse => exact ⟨rfl, fun _ _ => Iff.rfl⟩
  | @armed job rest waiting =>
    refine ⟨rfl, ?_⟩
    rintro timer rfl
    rw [waiting.mem_iff, mem_cons_iff_of_key_ne different]
    exact mem_cons_iff_of_key_ne different
  | @expired job due rest waiting isDue =>
    have timers (timer : Job κ × Option Nat) (own : timer.1.key = other) :
        timer ∈ rest ↔ timer ∈ traffic.timers := by
      subst own
      rw [waiting.mem_iff, mem_cons_iff_of_key_ne different]
    rcases expire_cases { traffic with timers := rest } job with
      ⟨-, nothing⟩ | ⟨debouncer, starts?, started⟩
    · rw [nothing]
      exact ⟨rfl, timers⟩
    · rw [started]
      exact ⟨((Debouncer.of_expire?_eq_some starts?).2.2 other).trans (if_neg different), timers⟩
  | @stopped job due rest waiting superseded =>
    refine ⟨rfl, ?_⟩
    rintro timer rfl
    rw [waiting.mem_iff, mem_cons_iff_of_key_ne different]
  | completed underWay => exact ⟨rfl, fun _ _ => Iff.rfl⟩

/-! ### What a debouncer guarantees -/

/-- With one entry for each key, an entry is the one that is found for its key. -/
theorem mem_pending_iff {debouncer : Debouncer κ}
    (single : (debouncer.pending.map Prod.fst).Nodup) {key : κ} {token : Nat} :
    (key, token) ∈ debouncer.pending ↔ debouncer.token? key = some token := by
  rw [Debouncer.token?]
  generalize debouncer.pending = pending at single ⊢
  induction pending with
  | nil => simp
  | cons first rest inductionHypothesis =>
    obtain ⟨waiting, waitingToken⟩ := first
    rw [List.map_cons, List.nodup_cons] at single
    rw [List.mem_cons, List.lookup_cons]
    by_cases own : key = waiting
    · subst own
      have behind : (key, token) ∉ rest := fun member =>
        single.1 (List.mem_map.mpr ⟨_, member, rfl⟩)
      simp [behind, eq_comm]
    · have different : (key == waiting) = false := by simpa using own
      simpa [different, own] using inductionHypothesis single.2

/-- Tokens stay different when they are cut to words of 64 bits. -/
theorem Kept.nodup_words {traffic : Traffic κ} (kept : Kept traffic)
    (few : (jobs traffic.history).length < 2 ^ 64) :
    ((jobs traffic.history).map fun job => UInt64.ofNat job.ticket.token).Nodup := by
  have last : (jobs traffic.history).length = traffic.debouncer.lastToken := by
    simpa using congrArg List.length kept.tokens
  have words : (jobs traffic.history).map (fun job => UInt64.ofNat job.ticket.token) =
      (List.range' 1 traffic.debouncer.lastToken).map UInt64.ofNat := by
    rw [← kept.tokens, List.map_map]
    rfl
  rw [words]
  refine List.Nodup.map_on ?_ List.nodup_range'
  intro first firstMember second secondMember same
  rw [List.mem_range'_1] at firstMember secondMember
  have numbers := congrArg UInt64.toNat same
  rw [UInt64.toNat_ofNat', UInt64.toNat_ofNat'] at numbers
  omega

/-- What holds in every state of a debouncer and was so at every moment before. -/
structure Safe (traffic : Traffic κ) : Prop where
  /-- At most one work waits for each key. -/
  single : (traffic.debouncer.pending.map Prod.fst).Nodup
  /-- A work waits exactly as long as no other work of its key is scheduled, nobody gives it up,
  and it has not started. -/
  pending : ∀ key token, (key, token) ∈ traffic.debouncer.pending ↔
    ∃ job, job.key = key ∧ job.ticket.token = token ∧ Waits traffic.history job
  /-- Works differ in their tokens, even if these are words of 64 bits. -/
  words : ((jobs traffic.history).map fun job => UInt64.ofNat job.ticket.token).Nodup
  /-- No work starts twice. -/
  once : (starts traffic.history).Nodup
  /-- A work starts only while it waits, and not before its delay has passed. -/
  started : ∀ early late job instant,
    traffic.history = early ++ .started job instant :: late →
    Waits early job ∧ job.since + job.ticket.delay * 1000000 ≤ instant
  /-- Giving up says whether a work of the key was waiting. -/
  cancelled : ∀ early late key was,
    traffic.history = early ++ .cancelled key was :: late →
    (was = true ↔ ∃ job, job.key = key ∧ Waits early job)
  /-- What is done about one key leaves alone what waits for the others. -/
  others : ∀ key next, Step traffic (some key) next → ∀ other, other ≠ key →
    next.debouncer.token? other = traffic.debouncer.token? other ∧
      ∀ timer, timer.1.key = other → (timer ∈ next.timers ↔ timer ∈ traffic.timers)

/-- A debouncer is safe in every order of its calls and timers, as long as its tokens fit into 64
bits. -/
theorem safe_of_reachable {traffic : Traffic κ} (reachable : traffic.Reachable)
    (few : (jobs traffic.history).length < 2 ^ 64) : Safe traffic := by
  have kept := kept_of_reachable reachable
  refine ⟨kept.single, ?_, kept.nodup_words few, kept.once, ?_, ?_, ?_⟩
  · intro key token
    rw [mem_pending_iff kept.single]
    exact kept.pending key token
  · exact fun early late job instant whole => kept.lawful early _ late whole
  · exact fun early late key was whole => kept.lawful early _ late whole
  · exact fun key next step other different => step.others different

/-! ### A work that takes the place of another -/

/-- A work that is scheduled now can start as soon as its delay has passed. -/
theorem exists_started {traffic : Traffic κ} (reachable : traffic.Reachable)
    (inUse : traffic.inUse = true) (key : κ) :
    ∃ next : Traffic κ, ∃ instant, next.Reachable ∧ next.history = traffic.history ++
      [.scheduled (traffic.nextJob key), .started (traffic.nextJob key) instant] := by
  let job := traffic.nextJob key
  let armed := (traffic.schedule key).arm job traffic.timers
  let due := armed.now + job.ticket.delay * 1000000
  have waiting : (traffic.schedule key).timers.Perm ((job, none) :: traffic.timers) :=
    List.perm_append_comm
  have reachable : Reachable { armed with now := due } :=
    ((reachable.step (.scheduled inUse key)).step (.armed waiting)).step (.waited _)
  have expired := reachable.step (.expired (.refl _) (Nat.le_refl due))
  have pending : armed.debouncer.token? key = some job.ticket.token :=
    (Debouncer.token?_schedule _ _ _).trans (if_pos rfl)
  refine ⟨_, due, expired, ?_⟩
  rcases expire_cases { armed with now := due, timers := traffic.timers } job with
    ⟨superseded, -⟩ | ⟨debouncer, -, started⟩
  · exact absurd pending superseded
  · rw [started]
    exact List.append_assoc ..

/-- A work of a key is scheduled while another one waits. Only the new one starts. -/
theorem safe_scheduledTwice :
    ∃ traffic : Traffic String, ∃ first second instant, traffic.Reachable ∧
      (jobs traffic.history).length < 2 ^ 64 ∧ first.key = second.key ∧
      traffic.history = [.scheduled first, .scheduled second] ++ [.started second instant] ∧
      Safe traffic ∧ Waits [.scheduled first, .scheduled second] second := by
  let empty : Traffic String := start ⟨350, 1.3, 32⟩ 0
  have scheduled := (reachable_start ⟨350, 1.3, 32⟩ 0).step (.scheduled rfl "pom")
  obtain ⟨traffic, instant, reachable, history⟩ := exists_started scheduled rfl "pom"
  let first := empty.nextJob "pom"
  let second := (empty.schedule "pom").nextJob "pom"
  have whole : traffic.history =
      [.scheduled first, .scheduled second] ++ [.started second instant] := history
  have few : (jobs traffic.history).length < 2 ^ 64 := by
    rw [whole, show jobs _ = [first, second] from rfl]
    decide
  have safe := safe_of_reachable reachable few
  exact ⟨traffic, first, second, instant, reachable, few, rfl, whole, safe,
    (safe.started _ [] _ _ whole).1⟩

end Traffic

end PomLens
