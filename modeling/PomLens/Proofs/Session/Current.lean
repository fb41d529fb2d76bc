/-
This file proves that a refresh that waited is never made of an outdated document.

A refresh waits with the document of the change that asked for it, and everything that comes later
for the same descriptor takes it away: a newer change, a change that cannot be read, and closing.
So the token that waits for a key is always that of a snapshot which nothing has superseded
(`Waiting`). A timer that runs down compares tokens, and no two changes have the same one; hence
whatever starts is the newest change of its descriptor, and it starts once (`startsNewest_of_reachable`).
Tokens are numbers here; words of 64 bits do as well unless more changes are accepted than there
are such words (`waits_iff_word`).
-/

import PomLens.Proofs.Session.Order

namespace PomLens

/-! ### Changes that can be read -/

/-- A change is taken up exactly when its text is a descriptor. -/
theorem Desk.takeUp_eq_ok_iff (desk : Desk) (document : Document) :
    (desk.takeUp document).2.2 = .ok () ↔
      ∃ descriptor, Descriptor.parse document.text = .ok descriptor := by
  simp only [takeUp, Project.parseDeclared]
  cases Descriptor.parse document.text with
  | ok descriptor => simp [pure, Except.pure]
  | error failure => simp [throw, throwThe, MonadExceptOf.throw]

/-- What must be true of a change that is recorded: if it was accepted, it could be read and waits
under the normalized path of its document; if it was rejected, it could not be read. -/
def Happening.Faithful : Happening → Prop
  | .accepted snapshot => snapshot.key = snapshot.document.path.normalize ∧
      ∃ descriptor, Descriptor.parse snapshot.document.text = .ok descriptor
  | .rejected document => ∃ failure, Descriptor.parse document.text = .error failure
  | _ => True

/-- Every change is recorded as what it is. -/
def Faithful (flow : Flow) : Prop :=
  ∀ happening ∈ flow.history, happening.Faithful

theorem Faithful.append {flow next : Flow} (faithful : Faithful flow) {last : Happening}
    (history : next.history = flow.history ++ [last]) (isFaithful : last.Faithful) :
    Faithful next := by
  rw [Faithful, history]
  intro happening member
  rcases List.mem_append.mp member with old | new
  · exact faithful happening old
  · rw [List.mem_singleton.mp new]
    exact isFaithful

theorem Faithful.changed {flow : Flow} (faithful : Faithful flow) (document : Document) :
    Faithful (flow.changed document) := by
  have read := flow.desk.takeUp_eq_ok_iff document
  match parsed : Descriptor.parse document.text with
  | .ok descriptor =>
    have isRead := read.mpr ⟨descriptor, parsed⟩
    exact faithful.append (Flow.becomes_changed isRead).history ⟨rfl, descriptor, parsed⟩
  | .error reason =>
    unfold Flow.changed
    match taken : flow.desk.takeUp document with
    | (desk, subject, .ok ()) =>
      rw [taken, parsed] at read
      cases (read.mp rfl).choose_spec
    | (desk, subject, .error failure) => exact faithful.append rfl ⟨reason, parsed⟩

theorem Faithful.fired {flow : Flow} (faithful : Faithful flow) (snapshot : Snapshot)
    (rest : List Snapshot) : Faithful (Flow.fired { flow with timers := rest } snapshot) := by
  unfold Flow.fired
  split
  · exact faithful
  · exact faithful.append rfl trivial

theorem Faithful.step {flow next : Flow} (faithful : Faithful flow) (step : Flow.Step flow next) :
    Faithful next := by
  cases step with
  | changed document => exact faithful.changed document
  | closed path => exact faithful.append rfl trivial
  | asked document => exact faithful.append rfl trivial
  | fired waiting => exact faithful.fired _ _
  | stopped waiting superseded => exact faithful
  | ended underWay nanoseconds => exact faithful.append rfl trivial
  | looked key => exact faithful
  | elsewhere workspace tool => exact faithful

theorem faithful_of_reachable {flow : Flow} (reachable : flow.Reachable) : Faithful flow :=
  reachable.induction (fun _ fresh => by simp [Faithful, fresh.history])
    fun _ _ _ faithful step => faithful.step step

/-! ### What supersedes a snapshot -/

/-- The snapshots of a key are out of date after this: the document was changed, whether or not it
could be read, or closed. -/
def Happening.Supersedes (key : Path) : Happening → Prop
  | .accepted snapshot => snapshot.key = key
  | .rejected document => document.path.normalize = key
  | .closed path => path.normalize = key
  | _ => False

/-- The snapshot was accepted, and nothing has superseded it since. -/
def Current (history : List Happening) (snapshot : Snapshot) : Prop :=
  ∃ before since, history = before ++ .accepted snapshot :: since ∧
    ∀ happening ∈ since, ¬ happening.Supersedes snapshot.key

theorem Current.append {history happened : List Happening} {snapshot : Snapshot}
    (current : Current history snapshot)
    (keeps : ∀ happening ∈ happened, ¬ happening.Supersedes snapshot.key) :
    Current (history ++ happened) snapshot := by
  obtain ⟨before, since, rfl, untouched⟩ := current
  refine ⟨before, since ++ happened, by simp, fun happening member => ?_⟩
  rcases List.mem_append.mp member with old | new
  · exact untouched happening old
  · exact keeps happening new

/-- What waits is current. -/
def Waiting (flow : Flow) : Prop :=
  ∀ key token, flow.debouncer.token? key = some token →
    ∃ snapshot : Snapshot, snapshot.key = key ∧ snapshot.token = token ∧
      Current flow.history snapshot

/-- What still waits after a step stays current if nothing that happened superseded it. -/
theorem Waiting.of_becomes {flow next : Flow} (waiting : Waiting flow)
    {token? : Path → Option Nat} {lastToken : Nat} {timers : List Snapshot} {runs : List Run}
    {happened : List Happening} {board : Board}
    (becomes : Flow.Becomes flow next lastToken token? timers runs happened board)
    (fewer : ∀ key token, token? key = some token → flow.debouncer.token? key = some token ∧
      ∀ happening ∈ happened, ¬ happening.Supersedes key) : Waiting next := by
  intro key token waits
  rw [becomes.token?] at waits
  obtain ⟨waited, keeps⟩ := fewer key token waits
  obtain ⟨snapshot, rfl, isToken, current⟩ := waiting key token waited
  rw [becomes.history]
  exact ⟨snapshot, rfl, isToken, current.append keeps⟩

/-- Taking away what waits for a key supersedes what waits for no other. -/
theorem Waiting.without {flow next : Flow} (waiting : Waiting flow) {key : Path}
    {timers : List Snapshot} {runs : List Run} {happened : List Happening} {board : Board}
    (becomes : Flow.Becomes flow next flow.debouncer.lastToken (flow.without key) timers runs
      happened board)
    (own : ∀ other, ∀ happening ∈ happened, happening.Supersedes other → other = key) :
    Waiting next := by
  refine waiting.of_becomes becomes fun other token waits => ⟨without_eq_some waits, ?_⟩
  intro happening member supersedes
  rw [own other happening member supersedes, Flow.without, if_pos rfl] at waits
  cases waits

theorem Waiting.accepted {flow next : Flow} (waiting : Waiting flow) {snapshot : Snapshot}
    (becomes : Flow.Becomes flow next snapshot.token
      (fun other => if other = snapshot.key then some snapshot.token
        else flow.debouncer.token? other)
      (flow.timers ++ [snapshot]) flow.runs [.accepted snapshot] flow.desk.board) :
    Waiting next := by
  intro key token waits
  rw [becomes.token?] at waits
  rw [becomes.history]
  by_cases own : key = snapshot.key
  · rw [if_pos own, Option.some.injEq] at waits
    exact ⟨snapshot, own.symm, waits, flow.history, [], rfl, by simp⟩
  · rw [if_neg own] at waits
    obtain ⟨older, rfl, isToken, current⟩ := waiting key token waits
    refine ⟨older, rfl, isToken, current.append fun happening member => ?_⟩
    rw [List.mem_singleton.mp member]
    exact Ne.symm own

/-- Every step keeps current what waits. -/
theorem Waiting.step {flow next : Flow} (waiting : Waiting flow) (step : Flow.Step flow next) :
    Waiting next := by
  cases step.effect with
  | accepted snapshot _ _ _ becomes => exact waiting.accepted becomes
  | rejected document becomes =>
    exact waiting.without becomes (by simp [Happening.Supersedes])
  | closed path becomes => exact waiting.without becomes (by simp [Happening.Supersedes])
  | started snapshot _ _ _ _ _ becomes =>
    exact waiting.without becomes (by simp [Happening.Supersedes])
  | asked document _ _ _ _ becomes =>
    exact waiting.of_becomes becomes fun _ _ waits => ⟨waits, by simp [Happening.Supersedes]⟩
  | published run _ _ _ _ becomes =>
    exact waiting.of_becomes becomes fun _ _ waits => ⟨waits, by simp [Happening.Supersedes]⟩
  | skipped run _ _ _ becomes =>
    exact waiting.of_becomes becomes fun _ _ waits => ⟨waits, by simp [Happening.Supersedes]⟩
  | stopped _ _ _ _ becomes =>
    exact waiting.of_becomes becomes fun _ _ waits => ⟨waits, by simp⟩
  | nothing becomes =>
    exact waiting.of_becomes becomes fun _ _ waits => ⟨waits, by simp⟩

theorem waiting_of_reachable {flow : Flow} (reachable : flow.Reachable) : Waiting flow :=
  reachable.induction (fun _ fresh => by simp [Waiting, Debouncer.token?, fresh.pending])
    fun _ _ _ waiting step => waiting.step step

/-! ### Tokens as words -/

/-- Tokens may be kept in words of 64 bits, as long as there are no more changes than such words:
a timer that runs down tells by them whether it is that of the work that waits. -/
theorem waits_iff_word {flow : Flow} (reachable : flow.Reachable)
    (few : (accepts flow.history).length ≤ UInt64.size) {snapshot : Snapshot}
    (timer : snapshot ∈ flow.timers) :
    (flow.debouncer.token? snapshot.key).map UInt64.ofNat = some (UInt64.ofNat snapshot.token) ↔
      flow.debouncer.token? snapshot.key = some snapshot.token := by
  have ordered := ordered_of_reachable reachable
  obtain ⟨first, last, later⟩ := ordered.counted
  -- All tokens lie in a stretch of as many numbers as there are changes.
  have stretch {other : Snapshot} (member : other ∈ accepts flow.history) :
      first < other.token ∧ other.token ≤ first + (accepts flow.history).length :=
    ⟨later other member, last ▸ ordered.bounded other member⟩
  cases waits : flow.debouncer.token? snapshot.key with
  | none => simp
  | some token =>
    obtain ⟨before, newest, rfl, whole, -⟩ := ordered.pending _ _ waits
    have isNewest : newest ∈ onKey snapshot.key (accepts flow.history) := by simp [whole]
    have ofNewest := stretch (mem_onKey.mp isNewest).1
    have ofSnapshot := stretch (ordered.timers snapshot timer)
    rw [Option.map_some, Option.some.injEq, Option.some.injEq]
    refine ⟨fun same => ?_, congrArg UInt64.ofNat⟩
    have numbers := congrArg UInt64.toNat same
    rw [UInt64.toNat_ofNat', UInt64.toNat_ofNat'] at numbers
    rw [UInt64.size] at few
    omega

/-! ### What starts -/

/-- The snapshot of a work whose timer runs down in time is current. -/
theorem current_of_pending {flow : Flow} (reachable : flow.Reachable) {snapshot : Snapshot}
    (timer : snapshot ∈ flow.timers)
    (pending : flow.debouncer.token? snapshot.key = some snapshot.token) :
    Current flow.history snapshot := by
  have ordered := ordered_of_reachable reachable
  obtain ⟨newest, -, sameToken, current⟩ := waiting_of_reachable reachable _ _ pending
  have accepted : newest ∈ accepts flow.history := by
    obtain ⟨before, since, whole, -⟩ := current
    exact mem_accepts.mpr (by simp [whole])
  -- The waiting token could be another snapshot's, if two changes had the same.
  have same : newest = snapshot :=
    eq_of_token_eq ordered.increasing accepted (ordered.timers snapshot timer) sameToken
  exact same ▸ current

/-- Whatever is refreshed after waiting is the newest snapshot of its descriptor. -/
structure StartsNewest (flow : Flow) : Prop where
  /-- Changes are accepted or rejected as they can be read or not. -/
  faithful : Faithful flow
  /-- A refresh starts with the snapshot of the latest change. That change could be read, and the
  descriptor was not closed since. -/
  current : ∀ early late snapshot, flow.history = early ++ .started snapshot :: late →
    Current early snapshot
  /-- A refresh under way that waited was started with its snapshot. -/
  underWay : ∀ run ∈ flow.runs, ∀ snapshot, run.snapshot? = some snapshot →
    .started snapshot ∈ flow.history
  /-- Every change has a snapshot of its own. -/
  distinct : (accepts flow.history).Nodup
  /-- No snapshot is started twice. -/
  once : (starts flow.history).Nodup

/-- Refreshes that waited start only for the newest snapshot of their descriptor, and each change
starts at most one. -/
theorem startsNewest_of_reachable {flow : Flow} (reachable : flow.Reachable) :
    StartsNewest flow where
  faithful := faithful_of_reachable reachable
  current := by
    intro early late snapshot whole
    obtain ⟨before, isReachable, rfl, timer, pending⟩ := Flow.exists_before reachable whole
    exact current_of_pending isReachable timer pending
  underWay := by
    intro run member snapshot same
    have started := (ordered_of_reachable reachable).underWay.mem_iff.mpr
      (List.mem_append_right _ (List.mem_filterMap.mpr ⟨run, member, same⟩))
    exact mem_starts.mp started
  distinct := nodup_accepts reachable
  once := nodup_starts reachable

/-- A document is changed again before the timer of its first change has run down, and only the
second change is refreshed. -/
theorem startsNewest_changedDocument :
    ∃ flow : Flow, ∃ first second : Snapshot, flow.Reachable ∧
      first.document = Flow.conflictDocument ∧ second.document = changedDocument ∧
      flow.history = [.accepted first, .accepted second] ++ [.started second] ∧
      StartsNewest flow ∧ Current [.accepted first, .accepted second] second := by
  obtain ⟨descriptor, parsed⟩ := exists_parsed_conflictDocument
  obtain ⟨_, parsed'⟩ := exists_parsed_changedDocument
  have read := (Desk.takeUp_eq_ok_iff Flow.withConflict.desk _).mpr ⟨descriptor, parsed⟩
  have changed := Flow.becomes_changed read
  obtain ⟨flow, second, _, steps, -, -, document, -, history⟩ :=
    exists_started (Flow.withConflict.changed Flow.conflictDocument) parsed'
  have reachable : flow.Reachable :=
    ⟨_, Flow.fresh_start _ _, .head (.changed Flow.conflictDocument) steps⟩
  have nothing : Flow.withConflict.history = [] := rfl
  rw [changed.history, nothing] at history
  have newest := startsNewest_of_reachable reachable
  exact ⟨flow, Flow.withConflict.nextSnapshot Flow.conflictDocument, second, reachable, rfl,
    document, history, newest, newest.current _ [] second history⟩

end PomLens
