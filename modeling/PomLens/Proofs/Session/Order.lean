/-
This file proves in which order the refreshes of a session start and publish.

Every accepted change gets a larger token than those before it, and only the newest one of a key
waits. So the refreshes of a key start in the order of their snapshots (`Ordered`). They need not
end in that order: a refresh that has started is never given up, and it publishes late if the
build tool keeps it waiting longer than a newer one (`keepsOrder_of_reachable`).
-/

import Mathlib.Data.List.Nodup
import PomLens.Proofs.Outcome
import PomLens.Proofs.Session.Flow

namespace PomLens

/-! ### Histories -/

/-- One happening stands before another. -/
def Before (history : List Happening) (first second : Happening) : Prop :=
  ∃ early late, history = early ++ second :: late ∧ first ∈ early

theorem before_of_ne {history : List Happening} {first second : Happening}
    (firstMember : first ∈ history) (secondMember : second ∈ history) (different : first ≠ second) :
    Before history first second ∨ Before history second first := by
  obtain ⟨early, late, rfl⟩ := List.append_of_mem secondMember
  rcases List.mem_append.mp firstMember with inEarly | inLate
  · exact Or.inl ⟨early, late, rfl, inEarly⟩
  · rcases List.mem_cons.mp inLate with same | inLate
    · exact absurd same different
    · obtain ⟨between, rest, rfl⟩ := List.append_of_mem inLate
      exact Or.inr ⟨early ++ second :: between, rest, by simp, by simp⟩

/-- What has happened only once, and last, stands before nothing. -/
theorem not_before_of_last {history : List Happening} {last other : Happening}
    (once : last ∉ history) : ¬ Before (history ++ [last]) last other := by
  rintro ⟨early, late, whole, member⟩
  have shorter := congrArg List.dropLast whole
  rw [List.dropLast_concat, List.dropLast_append_of_ne_nil (List.cons_ne_nil _ _)] at shorter
  rw [shorter] at once
  exact once (List.mem_append_left _ member)

namespace Happening

/-- The snapshot of an accepted change. -/
def accepted? : Happening → Option Snapshot
  | accepted snapshot => some snapshot
  | _ => none

/-- The snapshot of a refresh that waited and has started. -/
def started? : Happening → Option Snapshot
  | started snapshot => some snapshot
  | _ => none

/-- The snapshot of a refresh that waited and has ended. -/
def ended? : Happening → Option Snapshot
  | ended run _ => run.snapshot?
  | _ => none

theorem accepted?_eq_some {happening : Happening} {snapshot : Snapshot} :
    happening.accepted? = some snapshot ↔ happening = .accepted snapshot := by
  cases happening <;> simp [accepted?]

theorem started?_eq_some {happening : Happening} {snapshot : Snapshot} :
    happening.started? = some snapshot ↔ happening = .started snapshot := by
  cases happening <;> simp [started?]

end Happening

/-- The snapshots of all accepted changes, in their order. -/
def accepts (history : List Happening) : List Snapshot :=
  history.filterMap Happening.accepted?

/-- The snapshots of all refreshes that waited and have started, in their order. -/
def starts (history : List Happening) : List Snapshot :=
  history.filterMap Happening.started?

/-- The snapshots of all refreshes that waited and have ended, in their order. -/
def ends (history : List Happening) : List Snapshot :=
  history.filterMap Happening.ended?

@[simp] theorem accepts_append (first second : List Happening) :
    accepts (first ++ second) = accepts first ++ accepts second :=
  List.filterMap_append

@[simp] theorem starts_append (first second : List Happening) :
    starts (first ++ second) = starts first ++ starts second :=
  List.filterMap_append

@[simp] theorem ends_append (first second : List Happening) :
    ends (first ++ second) = ends first ++ ends second :=
  List.filterMap_append

theorem mem_accepts {history : List Happening} {snapshot : Snapshot} :
    snapshot ∈ accepts history ↔ .accepted snapshot ∈ history := by
  simp [accepts, List.mem_filterMap, Happening.accepted?_eq_some]

theorem mem_starts {history : List Happening} {snapshot : Snapshot} :
    snapshot ∈ starts history ↔ .started snapshot ∈ history := by
  simp [starts, List.mem_filterMap, Happening.started?_eq_some]

theorem mem_ends {history : List Happening} {run : Run} {published : Option (List Diagnostic)}
    {snapshot : Snapshot} (ended : .ended run published ∈ history)
    (same : run.snapshot? = some snapshot) : snapshot ∈ ends history :=
  List.mem_filterMap.mpr ⟨_, ended, same⟩

/-- The snapshots under a key. -/
def onKey (key : Path) (snapshots : List Snapshot) : List Snapshot :=
  snapshots.filter fun snapshot => snapshot.key = key

@[simp] theorem onKey_append (key : Path) (first second : List Snapshot) :
    onKey key (first ++ second) = onKey key first ++ onKey key second :=
  List.filter_append ..

theorem mem_onKey {key : Path} {snapshots : List Snapshot} {snapshot : Snapshot} :
    snapshot ∈ onKey key snapshots ↔ snapshot ∈ snapshots ∧ snapshot.key = key := by
  simp [onKey]

theorem onKey_singleton_self (snapshot : Snapshot) : onKey snapshot.key [snapshot] = [snapshot] := by
  simp [onKey]

theorem onKey_singleton_of_ne {key : Path} {snapshot : Snapshot} (other : snapshot.key ≠ key) :
    onKey key [snapshot] = [] := by
  simp [onKey, other]

/-! ### The invariant -/

/-- One snapshot got its token before another. -/
def Older (first second : Snapshot) : Prop :=
  first.token < second.token

/-- Accepted changes get growing tokens, only the newest one of a key waits, and those of a key
that have started did so in their order. -/
structure Ordered (flow : Flow) : Prop where
  increasing : (accepts flow.history).Pairwise Older
  bounded : ∀ snapshot ∈ accepts flow.history, snapshot.token ≤ flow.debouncer.lastToken
  counted : ∃ first, flow.debouncer.lastToken = first + (accepts flow.history).length ∧
    ∀ snapshot ∈ accepts flow.history, first < snapshot.token
  timers : ∀ snapshot ∈ flow.timers, snapshot ∈ accepts flow.history
  pending : ∀ key token, flow.debouncer.token? key = some token →
    ∃ before snapshot, snapshot.token = token ∧
      onKey key (accepts flow.history) = before ++ [snapshot] ∧
      (onKey key (starts flow.history)).Sublist before
  started : ∀ key,
    (onKey key (starts flow.history)).Sublist (onKey key (accepts flow.history))
  underWay : (starts flow.history).Perm
    (ends flow.history ++ flow.runs.filterMap Run.snapshot?)

theorem ordered_of_fresh {flow : Flow} (fresh : flow.Fresh) : Ordered flow := by
  refine ⟨?_, ?_, ?_, ?_, ?_, ?_, ?_⟩
  · simp [fresh.history, accepts]
  · simp [fresh.history, accepts]
  · simp [fresh.history, accepts]
  · simp [fresh.timers]
  · simp [Debouncer.token?, fresh.pending]
  · simp [fresh.history, starts, onKey]
  · simp [fresh.history, fresh.runs, starts, ends]

/-- Nothing gets out of order when no change is accepted and nothing starts. -/
theorem Ordered.of_quiet {flow next : Flow} (ordered : Ordered flow) {token? : Path → Option Nat}
    {timers : List Snapshot} {runs : List Run} {happened : List Happening} {board : Board}
    (becomes : Flow.Becomes flow next flow.debouncer.lastToken token? timers runs happened board)
    (noAccepts : accepts happened = []) (noStarts : starts happened = [])
    (fewer : ∀ snapshot ∈ timers, snapshot ∈ flow.timers)
    (pending : ∀ key token, token? key = some token → flow.debouncer.token? key = some token)
    (underWay : (flow.runs.filterMap Run.snapshot?).Perm
      (ends happened ++ runs.filterMap Run.snapshot?)) : Ordered next := by
  have sameAccepts : accepts next.history = accepts flow.history := by
    rw [becomes.history, accepts_append, noAccepts, List.append_nil]
  have sameStarts : starts next.history = starts flow.history := by
    rw [becomes.history, starts_append, noStarts, List.append_nil]
  refine ⟨?_, ?_, ?_, ?_, ?_, ?_, ?_⟩
  · rw [sameAccepts]
    exact ordered.increasing
  · rw [sameAccepts, becomes.lastToken]
    exact ordered.bounded
  · rw [sameAccepts, becomes.lastToken]
    exact ordered.counted
  · rw [sameAccepts, becomes.timers]
    exact fun snapshot member => ordered.timers snapshot (fewer snapshot member)
  · rw [sameAccepts, sameStarts]
    intro key token waits
    rw [becomes.token?] at waits
    exact ordered.pending key token (pending key token waits)
  · rw [sameAccepts, sameStarts]
    exact ordered.started
  · rw [sameStarts, becomes.history, becomes.runs, ends_append, List.append_assoc]
    exact ordered.underWay.trans (underWay.append_left _)

/-- An accepted change is the newest. -/
theorem Ordered.accepted {flow next : Flow} (ordered : Ordered flow) {snapshot : Snapshot}
    (token : snapshot.token = flow.debouncer.lastToken + 1)
    (becomes : Flow.Becomes flow next snapshot.token
      (fun other => if other = snapshot.key then some snapshot.token
        else flow.debouncer.token? other)
      (flow.timers ++ [snapshot]) flow.runs [.accepted snapshot] flow.desk.board) :
    Ordered next := by
  have newAccepts : accepts next.history = accepts flow.history ++ [snapshot] := by
    simp [becomes.history, accepts, Happening.accepted?]
  have sameStarts : starts next.history = starts flow.history := by
    simp [becomes.history, starts, Happening.started?]
  have sameEnds : ends next.history = ends flow.history := by
    simp [becomes.history, ends, Happening.ended?]
  refine ⟨?_, ?_, ?_, ?_, ?_, ?_, ?_⟩
  · rw [newAccepts]
    refine List.pairwise_append.mpr ⟨ordered.increasing, List.pairwise_singleton .., ?_⟩
    intro older member new isNew
    rw [List.mem_singleton.mp isNew, Older, token]
    exact Nat.lt_succ_of_le (ordered.bounded older member)
  · rw [newAccepts, becomes.lastToken]
    intro other member
    rcases List.mem_append.mp member with old | new
    · have := ordered.bounded other old
      omega
    · exact Nat.le_of_eq (congrArg Snapshot.token (List.mem_singleton.mp new))
  · obtain ⟨first, last, later⟩ := ordered.counted
    rw [newAccepts, becomes.lastToken]
    refine ⟨first, by simp [token, last, Nat.add_assoc], fun other member => ?_⟩
    rcases List.mem_append.mp member with old | new
    · exact later other old
    · rw [List.mem_singleton.mp new]
      omega
  · rw [newAccepts, becomes.timers]
    intro other member
    rcases List.mem_append.mp member with old | new
    · exact List.mem_append_left _ (ordered.timers other old)
    · exact List.mem_append_right _ new
  · rw [newAccepts, sameStarts]
    intro key waiting waits
    rw [becomes.token?] at waits
    by_cases own : key = snapshot.key
    · rw [if_pos own, Option.some.injEq] at waits
      subst own
      exact ⟨_, snapshot, waits, by rw [onKey_append, onKey_singleton_self], ordered.started _⟩
    · rw [if_neg own] at waits
      rw [onKey_append, onKey_singleton_of_ne (Ne.symm own), List.append_nil]
      exact ordered.pending key waiting waits
  · rw [newAccepts, sameStarts]
    intro key
    rw [onKey_append]
    exact (ordered.started key).trans (List.sublist_append_left _ _)
  · rw [sameStarts, sameEnds, becomes.runs]
    exact ordered.underWay

/-- Two accepted changes have different tokens. -/
theorem eq_of_token_eq {snapshots : List Snapshot} (increasing : snapshots.Pairwise Older)
    {first second : Snapshot} (firstMember : first ∈ snapshots) (secondMember : second ∈ snapshots)
    (same : first.token = second.token) : first = second := by
  have distinct : (snapshots.map Snapshot.token).Nodup :=
    List.pairwise_map.mpr (increasing.imp fun older => Nat.ne_of_lt older)
  exact List.inj_on_of_nodup_map distinct firstMember secondMember same

/-- What starts is the newest accepted change of its key, and it was not started before. -/
theorem Ordered.start {flow next : Flow} (ordered : Ordered flow) {snapshot : Snapshot}
    {rest : List Snapshot} {run : Run} (waiting : flow.timers.Perm (snapshot :: rest))
    (pending : flow.debouncer.token? snapshot.key = some snapshot.token)
    (same : run.snapshot? = some snapshot)
    (becomes : Flow.Becomes flow next flow.debouncer.lastToken (flow.without snapshot.key) rest
      (flow.runs ++ [run]) [.started snapshot] flow.desk.board) : Ordered next := by
  have sameAccepts : accepts next.history = accepts flow.history := by
    simp [becomes.history, accepts, Happening.accepted?]
  have newStarts : starts next.history = starts flow.history ++ [snapshot] := by
    simp [becomes.history, starts, Happening.started?]
  have sameEnds : ends next.history = ends flow.history := by
    simp [becomes.history, ends, Happening.ended?]
  have isAccepted : snapshot ∈ accepts flow.history :=
    ordered.timers snapshot (waiting.mem_iff.mpr List.mem_cons_self)
  obtain ⟨before, newest, token, whole, older⟩ := ordered.pending _ _ pending
  have isNewest : newest = snapshot := by
    have member : newest ∈ onKey snapshot.key (accepts flow.history) := by simp [whole]
    exact eq_of_token_eq ordered.increasing (mem_onKey.mp member).1 isAccepted token
  subst isNewest
  refine ⟨?_, ?_, ?_, ?_, ?_, ?_, ?_⟩
  · rw [sameAccepts]
    exact ordered.increasing
  · rw [sameAccepts, becomes.lastToken]
    exact ordered.bounded
  · rw [sameAccepts, becomes.lastToken]
    exact ordered.counted
  · rw [sameAccepts, becomes.timers]
    exact fun other member =>
      ordered.timers other (waiting.mem_iff.mpr (List.mem_cons_of_mem _ member))
  · intro key waits isWaiting
    rw [becomes.token?, Flow.without] at isWaiting
    by_cases own : key = newest.key
    · rw [if_pos own] at isWaiting
      cases isWaiting
    · rw [if_neg own] at isWaiting
      rw [sameAccepts, newStarts, onKey_append, onKey_singleton_of_ne (Ne.symm own),
        List.append_nil]
      exact ordered.pending key waits isWaiting
  · intro key
    rw [sameAccepts, newStarts, onKey_append]
    by_cases own : key = newest.key
    · subst own
      rw [onKey_singleton_self, whole]
      exact older.append (List.Sublist.refl _)
    · rw [onKey_singleton_of_ne (Ne.symm own), List.append_nil]
      exact ordered.started key
  · rw [newStarts, sameEnds, becomes.runs, List.filterMap_append, ← List.append_assoc]
    have new : [run].filterMap Run.snapshot? = [newest] := by simp [same]
    rw [new]
    exact ordered.underWay.append_right _

theorem without_eq_some {flow : Flow} {key other : Path} {token : Nat}
    (waits : flow.without key other = some token) : flow.debouncer.token? other = some token := by
  rw [Flow.without] at waits
  split at waits
  · cases waits
  · exact waits

/-- When a refresh has ended, one less is under way. -/
theorem Ordered.end {flow next : Flow} (ordered : Ordered flow) {run : Run} {rest : List Run}
    {published : Option (List Diagnostic)} {board : Board}
    (underWay : flow.runs.Perm (run :: rest))
    (becomes : Flow.Becomes flow next flow.debouncer.lastToken flow.debouncer.token? flow.timers
      rest [.ended run published] board) : Ordered next := by
  have one : ends [.ended run published] ++ rest.filterMap Run.snapshot? =
      (run :: rest).filterMap Run.snapshot? := by
    cases same : run.snapshot? <;> simp [ends, Happening.ended?, same]
  refine ordered.of_quiet becomes rfl rfl (fun _ => id) (fun _ _ => id) ?_
  rw [one]
  exact underWay.filterMap Run.snapshot?

/-- Every step keeps the order. -/
theorem Ordered.step {flow next : Flow} (ordered : Ordered flow) (step : Flow.Step flow next) :
    Ordered next := by
  cases step.effect with
  | accepted snapshot _ token _ becomes => exact ordered.accepted token becomes
  | started snapshot rest run waiting pending same becomes =>
    exact ordered.start waiting pending same becomes
  | published run rest diagnostics underWay _ becomes => exact ordered.end underWay becomes
  | skipped run rest underWay _ becomes => exact ordered.end underWay becomes
  | rejected document becomes =>
    exact ordered.of_quiet becomes rfl rfl (fun _ => id) (fun _ _ => without_eq_some) (.refl _)
  | closed path becomes =>
    exact ordered.of_quiet becomes rfl rfl (fun _ => id) (fun _ _ => without_eq_some) (.refl _)
  | asked document run _ token _ becomes =>
    refine ordered.of_quiet becomes rfl rfl (fun _ => id) (fun _ _ => id) ?_
    have quiet : ends [.asked document] = [] := rfl
    have none : [run].filterMap Run.snapshot? = [] := by simp [Run.snapshot?, token]
    rw [quiet, List.nil_append, List.filterMap_append, none, List.append_nil]
  | stopped snapshot rest waiting _ becomes =>
    exact ordered.of_quiet becomes rfl rfl
      (fun other member => waiting.mem_iff.mpr (List.mem_cons_of_mem _ member)) (fun _ _ => id)
      (.refl _)
  | nothing becomes =>
    exact ordered.of_quiet becomes rfl rfl (fun _ => id) (fun _ _ => id) (.refl _)

theorem ordered_of_reachable {flow : Flow} (reachable : flow.Reachable) : Ordered flow :=
  reachable.induction (fun _ fresh => ordered_of_fresh fresh)
    fun _ _ _ ordered step => ordered.step step

/-! ### What follows from the order -/

section

variable {flow : Flow} (reachable : flow.Reachable)

include reachable

theorem nodup_accepts : (accepts flow.history).Nodup :=
  (ordered_of_reachable reachable).increasing.imp fun older same =>
    Nat.ne_of_lt older (congrArg Snapshot.token same)

/-- What has started was accepted. -/
theorem mem_accepts_of_mem_starts {snapshot : Snapshot} (started : snapshot ∈ starts flow.history) :
    snapshot ∈ accepts flow.history := by
  have own := (ordered_of_reachable reachable).started snapshot.key
  exact (mem_onKey.mp (own.subset (mem_onKey.mpr ⟨started, rfl⟩))).1

/-- Nothing starts twice. -/
theorem nodup_starts : (starts flow.history).Nodup := by
  refine List.nodup_iff_sublist.mpr fun snapshot twice => ?_
  have own := (ordered_of_reachable reachable).started snapshot.key
  have twice' : (onKey snapshot.key [snapshot, snapshot]).Sublist (accepts flow.history) :=
    ((twice.filter _).trans own).trans List.filter_sublist
  simp only [onKey, decide_true, List.filter_cons_of_pos, List.filter_nil] at twice'
  exact List.nodup_iff_sublist.mp (nodup_accepts reachable) snapshot twice'

/-- Nothing ends twice. -/
theorem nodup_ends : (ends flow.history).Nodup :=
  (List.nodup_append.mp ((ordered_of_reachable reachable).underWay.nodup_iff.mp
    (nodup_starts reachable))).1

/-- Refreshes of a key start in the order of their tokens. -/
theorem pairwise_starts (key : Path) : (onKey key (starts flow.history)).Pairwise Older :=
  ((ordered_of_reachable reachable).increasing.sublist List.filter_sublist).sublist
    ((ordered_of_reachable reachable).started key)

theorem older_of_before {earlier later : Snapshot}
    (before : Before flow.history (.accepted earlier) (.accepted later)) : Older earlier later := by
  obtain ⟨early, late, whole, member⟩ := before
  have increasing := (ordered_of_reachable reachable).increasing
  rw [whole, accepts_append] at increasing
  refine (List.pairwise_append.mp increasing).2.2 earlier (mem_accepts.mpr member) later ?_
  exact mem_accepts.mpr List.mem_cons_self

/-- Of two refreshes of a key, the one with the older snapshot starts first. -/
theorem started_before {earlier later : Snapshot} (sameKey : earlier.key = later.key)
    (older : Older earlier later) {early late : List Happening}
    (whole : flow.history = early ++ .started later :: late)
    (started : .started earlier ∈ flow.history) : .started earlier ∈ early := by
  rw [whole] at started
  rcases List.mem_append.mp started with inEarly | inLate
  · exact inEarly
  · rcases List.mem_cons.mp inLate with same | behind
    · cases same
      exact absurd older (Nat.lt_irrefl _)
    · have ordered := pairwise_starts reachable later.key
      rw [whole, ← List.singleton_append, starts_append, starts_append, onKey_append,
        onKey_append] at ordered
      have inverse := (List.pairwise_append.mp (List.pairwise_append.mp ordered).2.1).2.2 later
        (mem_onKey.mpr ⟨mem_starts.mpr List.mem_cons_self, rfl⟩) earlier
        (mem_onKey.mpr ⟨mem_starts.mpr behind, sameKey⟩)
      exact absurd older (Nat.lt_asymm inverse)

theorem starts_in_order {earlier later : Snapshot} (sameKey : earlier.key = later.key)
    (accepted : Before flow.history (.accepted earlier) (.accepted later))
    (started : .started earlier ∈ flow.history) (started' : .started later ∈ flow.history) :
    Before flow.history (.started earlier) (.started later) := by
  obtain ⟨early, late, whole⟩ := List.append_of_mem started'
  exact ⟨early, late, whole,
    started_before reachable sameKey (older_of_before reachable accepted) whole started⟩

/-- A refresh that waited starts before it ends. -/
theorem started_before_ended {early late : List Happening} {run : Run}
    {published : Option (List Diagnostic)} {snapshot : Snapshot}
    (whole : flow.history = early ++ .ended run published :: late)
    (same : run.snapshot? = some snapshot) : .started snapshot ∈ early := by
  obtain ⟨before, isReachable, rfl, allows⟩ := Flow.exists_before reachable whole
  have underWay : run ∈ before.runs := by
    cases published with
    | none => exact allows.1
    | some diagnostics => exact allows.1
  have member : snapshot ∈ ends before.history ++ before.runs.filterMap Run.snapshot? :=
    List.mem_append_right _ (List.mem_filterMap.mpr ⟨run, underWay, same⟩)
  exact mem_starts.mp ((ordered_of_reachable isReachable).underWay.mem_iff.mpr member)

/-- A refresh that waited publishes the findings of its snapshot, as they are when it ends. -/
theorem published_of_ended {early late : List Happening} {run : Run}
    {published : Option (List Diagnostic)} {snapshot : Snapshot}
    (whole : flow.history = early ++ .ended run published :: late)
    (same : run.snapshot? = some snapshot) :
    run.refresh.toSubject = snapshot.toSubject ∧
      ∃ before after : Flow, flow.HappenedIn early (.ended run published) before after ∧
        before.desk.settings = flow.desk.settings ∧
        ∃ diagnostics, published = some diagnostics ∧ before.Finds run diagnostics := by
  obtain ⟨before, after, happened, allows⟩ := Flow.exists_step reachable whole
  have subject : run.refresh.toSubject = snapshot.toSubject := by
    obtain ⟨token, -, rfl⟩ := Option.map_eq_some_iff.mp same
    rfl
  refine ⟨subject, before, after, happened, happened.settings, ?_⟩
  cases published with
  | some diagnostics => exact ⟨diagnostics, rfl, allows.2⟩
  | none =>
    have started := started_before_ended reachable whole same
    obtain ⟨first, second, split⟩ := List.append_of_mem (mem_accepts.mp
      (mem_accepts_of_mem_starts happened.reachable (mem_starts.mpr (happened.before ▸ started))))
    obtain ⟨_, -, -, tree, parsed⟩ := Flow.exists_before happened.reachable split
    obtain ⟨failure, failed⟩ := allows.2
    rw [congrArg Subject.document subject, parsed] at failed
    cases failed

theorem exists_published {run : Run} {published : Option (List Diagnostic)} {snapshot : Snapshot}
    (ended : .ended run published ∈ flow.history) (same : run.snapshot? = some snapshot) :
    ∃ diagnostics, published = some diagnostics := by
  obtain ⟨early, late, whole⟩ := List.append_of_mem ended
  obtain ⟨-, _, _, -, -, diagnostics, isPublished, -⟩ := published_of_ended reachable whole same
  exact ⟨diagnostics, isPublished⟩

end

/-! ### A refresh that is overtaken -/

/-- A change that can be read can start its refresh next. -/
theorem exists_started (flow : Flow) {document : Document} {descriptor : Descriptor}
    (parsed : Descriptor.parse document.text = .ok descriptor) :
    ∃ next snapshot run, Flow.Steps flow next ∧ run.snapshot? = some snapshot ∧
      snapshot.key = document.path.normalize ∧ snapshot.document = document ∧
      next.runs = flow.runs ++ [run] ∧
      next.history = flow.history ++ [.accepted snapshot, .started snapshot] := by
  have read : (flow.desk.takeUp document).2.2 = .ok () := by
    simp [Desk.takeUp, Project.parseDeclared, parsed, pure, Except.pure]
  have changed := Flow.becomes_changed read
  have waiting : (flow.changed document).timers.Perm (flow.nextSnapshot document :: flow.timers) := by
    rw [changed.timers]
    exact List.perm_append_comm
  have pending : (flow.changed document).debouncer.token? (flow.nextSnapshot document).key =
      some (flow.nextSnapshot document).token :=
    (changed.token? _).trans (if_pos rfl)
  obtain ⟨run, same, fired⟩ := Flow.becomes_fired pending flow.timers
  refine ⟨_, flow.nextSnapshot document, run, .tail (.single (.changed document)) (.fired waiting),
    same, rfl, rfl, ?_, ?_⟩
  · rw [fired.runs, changed.runs]
  · rw [fired.history, changed.history, List.append_assoc]
    rfl

/-- A refresh under way can end next. -/
theorem exists_ended {flow : Flow} {run : Run} {rest : List Run}
    (underWay : flow.runs.Perm (run :: rest)) :
    ∃ next published, Flow.Steps flow next ∧ next.runs = rest ∧
      next.history = flow.history ++ [.ended run published] :=
  ⟨_, _, .single (.ended underWay 0), rfl, rfl⟩

/-- Whatever has happened, the refresh of a change can be overtaken by that of the next one. -/
theorem exists_overtaken (flow : Flow) {first second : Document} {descriptor descriptor' : Descriptor}
    (parsed : Descriptor.parse first.text = .ok descriptor)
    (parsed' : Descriptor.parse second.text = .ok descriptor') :
    ∃ later, ∃ earlier newer : Snapshot, ∃ run run' published published',
      Flow.Steps flow later ∧ earlier.document = first ∧ newer.document = second ∧
      earlier.key = first.path.normalize ∧ newer.key = second.path.normalize ∧
      run.snapshot? = some earlier ∧ run'.snapshot? = some newer ∧
      later.history = flow.history ++ [.accepted earlier, .started earlier, .accepted newer,
        .started newer, .ended run' published', .ended run published] := by
  obtain ⟨begun, earlier, run, starts, same, key, document, runs, history⟩ :=
    exists_started flow parsed
  obtain ⟨both, newer, run', starts', same', key', document', runs', history'⟩ :=
    exists_started begun parsed'
  have underWay : both.runs.Perm (run' :: (flow.runs ++ [run])) := by
    rw [runs', runs]
    exact List.perm_append_comm
  obtain ⟨one, published', overtakes, left, overtaken⟩ := exists_ended underWay
  have underWay' : one.runs.Perm (run :: flow.runs) := by
    rw [left]
    exact List.perm_append_comm
  obtain ⟨later, published, ends, -, ended⟩ := exists_ended underWay'
  refine ⟨later, earlier, newer, run, run', published, published',
    ((starts.trans starts').trans overtakes).trans ends, document, document', key, key', same, same',
    ?_⟩
  rw [ended, overtaken, history', history]
  simp

/-! ### Overlapping refreshes -/

/-- The refreshes of a key keep the order of its changes, as far as they do not overlap. -/
structure KeepsOrder (flow : Flow) (key : Path) : Prop where
  /-- They start in the order of their snapshots. -/
  starts : ∀ earlier later : Snapshot, earlier.key = key → later.key = key →
    Before flow.history (.accepted earlier) (.accepted later) →
    .started earlier ∈ flow.history → .started later ∈ flow.history →
    Before flow.history (.started earlier) (.started later)
  /-- Each of them is made of its snapshot, and in the step in which it ends it publishes what is
  found then. -/
  publishes : ∀ early late run published, ∀ snapshot : Snapshot,
    flow.history = early ++ .ended run published :: late → run.snapshot? = some snapshot →
    run.refresh.toSubject = snapshot.toSubject ∧
      ∃ before after : Flow, flow.HappenedIn early (.ended run published) before after ∧
        before.desk.settings = flow.desk.settings ∧
        ∃ diagnostics, published = some diagnostics ∧ before.Finds run diagnostics
  /-- The earlier snapshot is published first, unless its refresh was under way all the while
  that the later one was. -/
  publications : ∀ (earlier later : Snapshot) run run' published published',
    earlier.key = key → later.key = key →
    Before flow.history (.accepted earlier) (.accepted later) →
    run.snapshot? = some earlier → run'.snapshot? = some later →
    .ended run published ∈ flow.history → .ended run' published' ∈ flow.history →
    Before flow.history (.ended run published) (.ended run' published') ∨
      Before flow.history (.started earlier) (.started later) ∧
        Before flow.history (.started later) (.ended run' published') ∧
        Before flow.history (.ended run' published') (.ended run published)
  /-- If all others had ended when the refresh of the newest snapshot that was started ended,
  nothing else was published for the key since. -/
  newest : ∀ early late run published, ∀ newest : Snapshot,
    flow.history = early ++ .ended run published :: late → run.snapshot? = some newest →
    newest.key = key →
    (∀ other : Snapshot, .started other ∈ flow.history → other.key = key → other ≠ newest →
      Before flow.history (.accepted other) (.accepted newest)) →
    (∀ other : Snapshot, .started other ∈ early → other.key = key → other ≠ newest →
      ∃ run' published', run'.snapshot? = some other ∧ .ended run' published' ∈ early) →
    ∀ run' published', ∀ other : Snapshot, .ended run' published' ∈ late →
      run'.snapshot? = some other → other.key ≠ key

/-- The refreshes of a session keep the order of the changes, as far as they do not overlap. -/
theorem keepsOrder_of_reachable {flow : Flow} (reachable : flow.Reachable) (key : Path) :
    KeepsOrder flow key := by
  refine ⟨fun _ _ isKey isKey' => starts_in_order reachable (isKey.trans isKey'.symm),
    fun _ _ _ _ _ => published_of_ended reachable, ?publications, ?newest⟩
  case publications =>
    intro earlier later run run' published published' earlierKey laterKey accepted same same' ended
      ended'
    have older := older_of_before reachable accepted
    have different : Happening.ended run published ≠ .ended run' published' := by
      intro equal
      cases equal
      rw [same, Option.some.injEq] at same'
      subst same'
      exact Nat.lt_irrefl _ older
    rcases before_of_ne ended ended' different with first | late
    · exact Or.inl first
    · obtain ⟨early, rest, whole⟩ := List.append_of_mem ended
      obtain ⟨early', rest', whole'⟩ := List.append_of_mem ended'
      have started := started_before_ended reachable whole same
      have started' := started_before_ended reachable whole' same'
      refine Or.inr ⟨?_, ⟨early', rest', whole', started'⟩, late⟩
      refine starts_in_order reachable (earlierKey.trans laterKey.symm) accepted ?_ ?_
      · rw [whole]
        exact List.mem_append_left _ started
      · rw [whole']
        exact List.mem_append_left _ started'
  case newest =>
    intro early late run published newest whole same newestKey isNewest quiet run' published' other
      ended' same' otherKey
    have once := nodup_ends reachable
    rw [whole, ← List.singleton_append, ends_append, ends_append] at once
    have ownEnd : newest ∈ ends [.ended run published] := mem_ends List.mem_cons_self same
    have otherEnd : other ∈ ends late := mem_ends ended' same'
    obtain ⟨-, onceLate, apart⟩ := List.nodup_append.mp once
    have different : other ≠ newest := by
      intro equal
      exact (List.nodup_append.mp onceLate).2.2 newest ownEnd other otherEnd equal.symm
    obtain ⟨first, second, split⟩ := List.append_of_mem ended'
    have whole' : flow.history = (early ++ .ended run published :: first) ++
        .ended run' published' :: second := by simp [whole, split]
    have started' : .started other ∈ flow.history := by
      rw [whole']
      exact List.mem_append_left _ (started_before_ended reachable whole' same')
    have older := older_of_before reachable (isNewest other started' otherKey different)
    obtain ⟨before, between, splitEarly⟩ :=
      List.append_of_mem (started_before_ended reachable whole same)
    have whole'' : flow.history = before ++ .started newest ::
        (between ++ .ended run published :: late) := by simp [whole, splitEarly]
    have inEarly : .started other ∈ early := by
      rw [splitEarly]
      exact List.mem_append_left _ (started_before reachable (otherKey.trans newestKey.symm) older
        whole'' started')
    obtain ⟨run'', published'', same'', ended''⟩ := quiet other inEarly otherKey different
    exact apart other (mem_ends ended'' same'') other (List.mem_append_right _ otherEnd) rfl

/-- The change that follows: the same descriptor with one more line. -/
def changedDocument : Document where
  path := Flow.conflictDocument.path
  text := "\n" ++ Flow.conflictDocument.text

theorem exists_parsed_conflictDocument :
    ∃ descriptor, Descriptor.parse Flow.conflictDocument.text = .ok descriptor :=
  exists_eq_ok_of_isSome_toOption (by decide +kernel)

theorem exists_parsed_changedDocument :
    ∃ descriptor, Descriptor.parse changedDocument.text = .ok descriptor :=
  exists_eq_ok_of_isSome_toOption (by decide +kernel)

/-- Two changes of one descriptor whose refreshes have ended, the newer one first. -/
theorem keepsOrder_changedDocument :
    ∃ flow : Flow, flow.Reachable ∧ (ends flow.history).length = 2 ∧
      KeepsOrder flow changedDocument.path.normalize := by
  obtain ⟨_, parsed⟩ := exists_parsed_conflictDocument
  obtain ⟨_, parsed'⟩ := exists_parsed_changedDocument
  obtain ⟨flow, earlier, newer, run, run', published, published', steps, -, -, -, -, same, same',
    history⟩ := exists_overtaken Flow.withConflict parsed parsed'
  have reachable : flow.Reachable := ⟨_, Flow.fresh_start _ _, steps⟩
  refine ⟨flow, reachable, ?_, keepsOrder_of_reachable reachable _⟩
  have nothing : Flow.withConflict.history = [] := rfl
  rw [history, nothing, List.nil_append]
  simp only [ends, List.filterMap_cons, Happening.ended?, same, same', List.filterMap_nil,
    List.length_cons, List.length_nil]

/-- The older snapshot can be published last, over the findings of the newer one. -/
theorem older_published_last :
    ∃ flow : Flow, ∃ earlier later : Snapshot, ∃ run run' diagnostics diagnostics',
      flow.Reachable ∧ earlier.document = Flow.conflictDocument ∧
      later.document = changedDocument ∧ earlier.key = later.key ∧
      Before flow.history (.accepted earlier) (.accepted later) ∧
      run.snapshot? = some earlier ∧ run'.snapshot? = some later ∧
      .ended run' (some diagnostics') ∈ flow.history ∧
      flow.history.getLast? = some (.ended run (some diagnostics)) ∧
      ¬ Before flow.history (.ended run (some diagnostics)) (.ended run' (some diagnostics')) := by
  obtain ⟨_, parsed⟩ := exists_parsed_conflictDocument
  obtain ⟨_, parsed'⟩ := exists_parsed_changedDocument
  obtain ⟨flow, earlier, later, run, run', published, published', steps, document, document', key,
    key', same, same', history⟩ := exists_overtaken Flow.withConflict parsed parsed'
  have reachable : flow.Reachable := ⟨_, Flow.fresh_start _ _, steps⟩
  have nothing : Flow.withConflict.history = [] := rfl
  rw [nothing, List.nil_append] at history
  have ended : .ended run published ∈ flow.history := by simp [history]
  have ended' : .ended run' published' ∈ flow.history := by simp [history]
  obtain ⟨diagnostics, rfl⟩ := exists_published reachable ended same
  obtain ⟨diagnostics', rfl⟩ := exists_published reachable ended' same'
  have accepted : Before flow.history (.accepted earlier) (.accepted later) := by
    rw [history]
    exact ⟨[.accepted earlier, .started earlier], _, rfl, by simp⟩
  have different : run ≠ run' := by
    rintro rfl
    rw [same, Option.some.injEq] at same'
    subst same'
    exact Nat.lt_irrefl _ (older_of_before reachable accepted)
  refine ⟨flow, earlier, later, run, run', diagnostics, diagnostics', reachable, document, document',
    key.trans key'.symm, accepted, same, same', ended', by simp [history], ?_⟩
  have split : flow.history = [.accepted earlier, .started earlier, .accepted later,
      .started later, .ended run' (some diagnostics')] ++ [.ended run (some diagnostics)] := history
  rw [split]
  exact not_before_of_last (by simp [different])

end PomLens
