import FleetPulse.Pipeline.System

/-! The step relation as a program: `perform` computes the step that a process makes, given what its
    surroundings decide for it (a request, a clock reading, the ids drawn, which calls fail).

    `perform_iff` says that it makes exactly the steps of the relation, so a run can be evaluated
    from the list of its actions. -/

namespace FleetPulse
open Values Interleaving

/-- What the surroundings of a process decide about its next step; `go` when there is nothing to
    decide, `fail` when the call that it awaits fails. -/
inductive Action where
  | receive (now : Instant) (batch : TelemetryBatch) (correlationId : String)
  | commit (createdAt : Instant) (eventId : UUID)
  | select (events : List OutboxEventRecord)
  | add (now : Instant)
  | start
  | poll (idle : ℕ → Bool)
  | request
  | go
  | fail
  | expire
  | stop

variable {ι : Type} [DecidableEq ι] (libs : Libraries) (settings : ι → WorkerSettings)

/-- The lock of the next candidate, or its being skipped. -/
def performLock (i : ι) (s : Shared ι) (eventId : UUID) (candidates : List UUID)
    (rows : List OutboxEventRecord) : Event × Shared ι × Local :=
  match s.db.outboxEvents.find? eventId with
  | some row =>
    if eventId ∈ s.locks.map Prod.fst ∨ row.publishedAt ≠ none then
      (.skipped eventId, s, .locking candidates rows)
    else (.locked eventId, { s with locks := (eventId, i) :: s.locks },
      .locking candidates (rows ++ [row]))
  | none => (.skipped eventId, s, .locking candidates rows)

/-- The step of the process `i`, if it has one. -/
def perform (i : ι) (a : Action) (s : Shared ι) (l : Local) : Option (Event × Shared ι × Local) :=
  match a, l with
  | .receive now batch correlationId, .idle =>
    some (.received now batch correlationId, s, .ingesting now batch correlationId)
  | .commit createdAt eventId, .ingesting now batch correlationId =>
    match ingestBatch now createdAt eventId correlationId batch s.db with
    | .ok (db, response) =>
      some (.ingested batch eventId response, { s with db := db }, .answering batch response)
    | .error _ => none
  | .go, .answering batch response => some (.answered batch response, s, .idle)
  | .select events, .idle =>
    if OrderedByCreation (unpublished s.db) events then
      some (.selected (events.map OutboxEventRecord.eventId), s,
        .locking (events.map OutboxEventRecord.eventId) [])
    else none
  | .go, .locking [] rows => some (.opened, s, .publishing rows [])
  | .go, .locking (eventId :: candidates) rows =>
    if rows.length = publishLimit then some (.opened, s, .publishing rows [])
    else if rows.length < publishLimit then some (performLock i s eventId candidates rows)
    else none
  | .add now, .publishing (row :: rows) added =>
    some (.added row.eventId, { s with stream := s.stream.add (publishFields row) },
      .publishing rows (added ++ [markPublished now row]))
  | .go, .publishing [] added => some (.published (added.map OutboxEventRecord.eventId),
      { s with db := { s.db with outboxEvents := commitPublished added s.db.outboxEvents },
               locks := release i s }, .idle)
  | .fail, .locking _ _ => some (.rolledBack [], { s with locks := release i s }, .idle)
  | .fail, .publishing _ added => some (.rolledBack (added.map OutboxEventRecord.eventId),
      { s with locks := release i s }, .idle)
  | .start, .idle => some (.started, s, .polling .claim [])
  | .poll idle, .polling .claim [] => some (.polled (s.stream.claimIds idle pollCount),
      { s with stream := s.stream.autoclaim idle pollCount },
      .polling .read (delivered s.stream (s.stream.claimIds idle pollCount)))
  | .poll _, .polling .read [] => some (.polled (s.stream.newIds pollCount),
      { s with stream := s.stream.readGroup pollCount },
      .polling .measure (delivered s.stream (s.stream.newIds pollCount)))
  | .go, .polling .measure [] =>
    some (.measured (queuePending s.toStores), s, .polling .claim [])
  | .go, .polling next ((id, fields) :: queue) =>
    some (.taken id, s, .handling next queue id fields .received)
  | .go, .handling next queue id fields h =>
    if h = .returned then some (.finished id, s, .polling next queue)
    else match advance libs (settings i) id fields h s.toStores with
      | .ok (h', stores) => some (.advanced id h h', { s with toStores := stores },
          .handling next queue id fields h')
      | .error _ => none
  | .request, .idle => some (.requested, s, .lookingUp)
  | .go, .lookingUp => s.cache.map (fun views => (.hit, s, .found views))
  | .fail, .lookingUp => some (.missed, s, .querying)
  | .go, .found views => some (.counted, s, .returning views)
  | .fail, .found _ => some (.missed, s, .querying)
  | .go, .querying => some (.loaded (selectFleetState libs s.db), s,
      .caching (selectFleetState libs s.db))
  | .go, .caching views => some (.stored views, { s with cache := some views }, .returning views)
  | .fail, .caching views => some (.unstored, s, .returning views)
  | .go, .returning views => some (.returned views, s, .idle)
  | .expire, l => some (.expired, { s with cache := none }, l)
  | .stop, l => if l.inTransaction then none else some (.stopped, s, .idle)
  | _, _ => none

variable {libs settings} {i : ι} {s s' : Shared ι} {l l' : Local} {e : Event}

theorem performLock_sound {eventId : UUID} {candidates : List UUID}
    {rows : List OutboxEventRecord} (hlen : rows.length < publishLimit)
    (h : performLock i s eventId candidates rows = (e, s', l')) :
    RelayStep i s (.locking (eventId :: candidates) rows) e s' l' := by
  unfold performLock at h
  split at h
  · next row hrow =>
    split at h
    · next hskip =>
      cases h
      exact .skip hlen (hskip.imp_right (fun hp r hr => by rw [hrow] at hr; cases hr; exact hp))
    · next hlock =>
      obtain ⟨hfree, hp⟩ := not_or.mp hlock
      cases h
      exact .lock hlen hfree hrow (not_not.mp hp)
  · next hnone => cases h; exact .skip hlen (Or.inr (fun r hr => by rw [hnone] at hr; cases hr))

theorem perform_sound {a : Action} (h : perform libs settings i a s l = some (e, s', l')) :
    Step libs settings i s l e s' l' := by
  unfold perform at h
  split at h
  -- ingest_batch
  · cases h; exact .api (.receive ..)
  · split at h
    · next hingest => cases h; exact .api (.commit hingest)
    · cases h
  · cases h; exact .api (.answer ..)
  -- publish_once
  · split at h
    · next hordered => cases h; exact .relay (.select hordered)
    · cases h
  · cases h; exact .relay (.opened (Or.inl rfl))
  · split at h
    · next hfull => cases h; exact .relay (.opened (Or.inr hfull))
    · split at h
      · next hlen => exact .relay (performLock_sound hlen (Option.some.inj h))
      · cases h
  · cases h; exact .relay (.add ..)
  · cases h; exact .relay (.commit ..)
  · cases h; exact .relay (.rollbackLocking ..)
  · cases h; exact .relay (.rollback ..)
  -- the worker
  · cases h; exact .worker (.start ..)
  · cases h; exact .worker (.claim ..)
  · cases h; exact .worker (.read ..)
  · cases h; exact .worker (.measure ..)
  · cases h; exact .worker (.take ..)
  · split at h
    · next hreturned => subst hreturned; cases h; exact .worker (.finish ..)
    · next hne =>
      split at h
      · next ha => cases h; exact .worker (.advance hne ha)
      · cases h
  -- list_fleet_state
  · cases h; exact .reader (.request ..)
  · obtain ⟨views, hcache, hr⟩ := Option.map_eq_some_iff.mp h
    cases hr; exact .reader (.hit hcache)
  · cases h; exact .reader (.miss ..)
  · cases h; exact .reader (.answerHit ..)
  · cases h; exact .reader (.bypass ..)
  · cases h; exact .reader (.query ..)
  · cases h; exact .reader (.store ..)
  · cases h; exact .reader (.unstored ..)
  · cases h; exact .reader (.answer ..)
  -- at any point
  · cases h; exact .expire ..
  · split at h
    · cases h
    · next hopen => cases h; exact .stop (Bool.eq_false_iff.mpr hopen)
  · cases h

theorem perform_complete (h : Step libs settings i s l e s' l') :
    ∃ a, perform libs settings i a s l = some (e, s', l') := by
  cases h with
  | api h => cases h with
    | receive now batch correlationId => exact ⟨.receive now batch correlationId, rfl⟩
    | @commit _ _ _ createdAt eventId _ _ hingest =>
      exact ⟨.commit createdAt eventId, by simp only [perform, hingest]⟩
    | answer batch response => exact ⟨.go, rfl⟩
  | relay h => cases h with
    | @select events hordered =>
      exact ⟨.select events, by simp only [perform, if_pos hordered]⟩
    | lock hlen hfree hfind hrow =>
      exact ⟨.go, by simp [perform, performLock, Nat.ne_of_lt hlen, hlen, hfind, hfree, hrow]⟩
    | skip hlen hskip =>
      refine ⟨.go, ?_⟩
      simp only [perform, Nat.ne_of_lt hlen, hlen, if_false, if_true, performLock]
      split
      · next row hrow => rw [if_pos (hskip.imp_right (fun hp => hp row hrow))]
      · rfl
    | @opened candidates rows hdone =>
      refine ⟨.go, ?_⟩
      cases candidates with
      | nil => rfl
      | cons eventId candidates => simp [perform, hdone.resolve_left (List.cons_ne_nil _ _)]
    | add row rows added now => exact ⟨.add now, rfl⟩
    | commit added => exact ⟨.go, rfl⟩
    | rollbackLocking candidates rows => exact ⟨.fail, rfl⟩
    | rollback rows added => exact ⟨.fail, rfl⟩
  | worker h => cases h with
    | start => exact ⟨.start, rfl⟩
    | claim idle => exact ⟨.poll idle, rfl⟩
    | read => exact ⟨.poll (fun _ => false), rfl⟩
    | measure => exact ⟨.go, rfl⟩
    | take next id fields queue => exact ⟨.go, by cases next <;> rfl⟩
    | advance hne ha => exact ⟨.go, by simp only [perform, if_neg hne, ha]⟩
    | finish next queue id fields => exact ⟨.go, by simp [perform]⟩
  | reader h => cases h with
    | request => exact ⟨.request, rfl⟩
    | hit hcache => exact ⟨.go, by simp [perform, hcache]⟩
    | miss => exact ⟨.fail, rfl⟩
    | answerHit views => exact ⟨.go, rfl⟩
    | bypass views => exact ⟨.fail, rfl⟩
    | query => exact ⟨.go, rfl⟩
    | store views => exact ⟨.go, rfl⟩
    | unstored views => exact ⟨.fail, rfl⟩
    | answer views => exact ⟨.go, rfl⟩
  | expire => exact ⟨.expire, by cases l <;> rfl⟩
  | stop hopen => exact ⟨.stop, by cases l <;> simp_all [perform, Local.inTransaction]⟩

/-- EXECUTABLE: the program makes the steps of the relation and no others. -/
theorem perform_iff : (∃ a, perform libs settings i a s l = some (e, s', l')) ↔
    Step libs settings i s l e s' l' :=
  ⟨fun ⟨_, h⟩ => perform_sound h, perform_complete⟩

/-! ### Runs -/

/-- The actions of the processes one after another, with the run so far. -/
def schedule (libs : Libraries) (settings : ι → WorkerSettings) :
    List (ι × Action) → List (ι × Event) → Config ι (Shared ι) Local →
    Option (List (ι × Event) × Config ι (Shared ι) Local)
  | [], t, c => some (t, c)
  | (i, a) :: actions, t, c => (perform libs settings i a c.shared (c.loc i)).bind (fun r =>
      schedule libs settings actions (t ++ [(i, r.1)])
        ⟨r.2.1, Function.update c.loc i r.2.2⟩)

/-- Everything as it is before the first step. -/
def initial (ι : Type) : Config ι (Shared ι) Local := ⟨Shared.init ι, fun _ => .idle⟩

theorem initial_run : Run (pipeline libs settings) [] (initial ι) :=
  ⟨initial ι, ⟨rfl, fun _ => rfl⟩, .refl _⟩

/-- A schedule extends a run by the steps it performs. -/
theorem schedule_steps : ∀ {actions : List (ι × Action)} {t t' : List (ι × Event)}
    {c c' : Config ι (Shared ι) Local}, schedule libs settings actions t c = some (t', c') →
    ∃ t'', t' = t ++ t'' ∧ Steps (pipeline libs settings) c t'' c'
  | [], t, _, c, _, h => by
      cases h
      exact ⟨[], (List.append_nil t).symm, .refl c⟩
  | (i, a) :: actions, t, t', c, c', h => by
      obtain ⟨⟨e, s', l'⟩, hr, h⟩ := Option.bind_eq_some_iff.mp h
      obtain ⟨t'', rfl, hsteps⟩ := schedule_steps h
      have hstep : Steps (pipeline libs settings) c [(i, e)]
          ⟨s', Function.update c.loc i l'⟩ := .single (perform_sound hr)
      exact ⟨(i, e) :: t'', by simp, hstep.append hsteps⟩

/-- A check that the schedule's last state passes is passed by a state that is reached. -/
theorem exists_steps {actions : List (ι × Action)} {c : Config ι (Shared ι) Local}
    {check : List (ι × Event) × Config ι (Shared ι) Local → Bool}
    (h : (schedule libs settings actions [] c).any check = true) :
    ∃ t c', Steps (pipeline libs settings) c t c' ∧ check (t, c') = true := by
  obtain ⟨⟨t, c'⟩, hschedule, hcheck⟩ := (Option.any_eq_true _ _).mp h
  obtain ⟨_, rfl, hsteps⟩ := schedule_steps hschedule
  exact ⟨t, c', hsteps, hcheck⟩

theorem exists_run {actions : List (ι × Action)}
    {check : List (ι × Event) × Config ι (Shared ι) Local → Bool}
    (h : (schedule libs settings actions [] (initial ι)).any check = true) :
    ∃ t c, Run (pipeline libs settings) t c ∧ check (t, c) = true := by
  obtain ⟨t, c, hsteps, hcheck⟩ := exists_steps h
  exact ⟨t, c, initial_run.extend hsteps, hcheck⟩

/-- The actions one after another, each of which has to meet a condition. -/
def scheduleWithin (libs : Libraries) (settings : ι → WorkerSettings)
    (allowed : ι → Shared ι → Local → Event → Prop) [∀ i s l e, Decidable (allowed i s l e)] :
    List (ι × Action) → List (ι × Event) → Config ι (Shared ι) Local →
    Option (List (ι × Event) × Config ι (Shared ι) Local)
  | [], t, c => some (t, c)
  | (i, a) :: actions, t, c => (perform libs settings i a c.shared (c.loc i)).bind (fun r =>
      if allowed i c.shared (c.loc i) r.1 then
        scheduleWithin libs settings allowed actions (t ++ [(i, r.1)])
          ⟨r.2.1, Function.update c.loc i r.2.2⟩
      else none)

/-- The schedule is a run of the restricted pipeline. -/
theorem scheduleWithin_run {allowed : ι → Shared ι → Local → Event → Prop}
    [∀ i s l e, Decidable (allowed i s l e)] : ∀ {actions : List (ι × Action)}
    {t t' : List (ι × Event)} {c c' : Config ι (Shared ι) Local},
    Run ((pipeline libs settings).restrict allowed) t c →
    scheduleWithin libs settings allowed actions t c = some (t', c') →
    Run ((pipeline libs settings).restrict allowed) t' c'
  | [], _, _, _, _, hrun, h => by cases h; exact hrun
  | (i, a) :: actions, t, t', c, c', hrun, h => by
      obtain ⟨⟨e, s', l'⟩, hr, h⟩ := Option.bind_eq_some_iff.mp h
      split at h
      · next hallowed =>
        have hstep : Run ((pipeline libs settings).restrict allowed) (t ++ [(i, e)])
            ⟨s', Function.update c.loc i l'⟩ := hrun.snoc ⟨perform_sound hr, hallowed⟩
        exact scheduleWithin_run hstep h
      · cases h

theorem exists_run_within {allowed : ι → Shared ι → Local → Event → Prop}
    [∀ i s l e, Decidable (allowed i s l e)] {actions : List (ι × Action)}
    {check : List (ι × Event) × Config ι (Shared ι) Local → Bool}
    (h : (scheduleWithin libs settings allowed actions [] (initial ι)).any check = true) :
    ∃ t c, Run ((pipeline libs settings).restrict allowed) t c ∧ check (t, c) = true := by
  obtain ⟨⟨t, c⟩, hschedule, hcheck⟩ := (Option.any_eq_true _ _).mp h
  exact ⟨t, c, scheduleWithin_run ⟨initial ι, ⟨rfl, fun _ => rfl⟩, .refl _⟩ hschedule, hcheck⟩

/-! ### A small fleet

    Concrete batches of two agents, and the actions of a request, of a relay transaction and of a
    worker, for runs that are evaluated. -/

def uniformId (d : Fin 16) : UUID := ⟨List.replicate 32 d, List.length_replicate⟩

def smallSample (second : Fin 60) (cpuPercent : ℚ) : TelemetrySample :=
  ⟨⟨2026, 7, 17, 9, 0, second, 0, some ⟨false, 0, 0⟩, isDate_sample⟩, .finite cpuPercent, .finite 1,
    .finite 1, .finite 1, ⟨16, 8, 8, .finite 50⟩, [⟨"/", 100, 40, 60, .finite 40⟩],
    ⟨0, 0, 0, 0, 0, 0, 0, 0, 0, 0, 0, 0⟩, 1, []⟩

def olderBatch : TelemetryBatch :=
  ⟨uniformId 1, "node-1", "host-1", [smallSample 10 95], by decide +kernel⟩

def newerBatch : TelemetryBatch :=
  ⟨uniformId 2, "node-1", "host-1", [smallSample 20 40], by decide +kernel⟩

/-- Another agent's batch under the id of `olderBatch`. -/
def reusedBatch : TelemetryBatch :=
  ⟨uniformId 1, "node-2", "host-2", [smallSample 30 40], by decide +kernel⟩

/-- The defaults. -/
def smallSettings : WorkerSettings :=
  ⟨"worker-1", 3, .finite 90, .finite 90, by decide, by decide, by decide +kernel,
    by decide +kernel⟩

/-- A request, up to its answer. -/
def ingestActions (batch : TelemetryBatch) (createdAt : Instant) (eventId : UUID) : List Action :=
  [.receive createdAt batch "request", .commit createdAt eventId, .go]

/-- A relay transaction that publishes the events. -/
def publishActions (events : List OutboxEventRecord) : List Action :=
  .select events :: events.map (fun _ => .go) ++ .go :: events.map (fun _ => .add 100) ++ [.go]

/-- A worker that starts and reads what is new. -/
def readActions : List Action := [.start, .poll (fun _ => false), .poll (fun _ => false)]

/-- The next entry of the worker's queue, processed without a failure. -/
def handleActions : List Action := [.go, .go, .go, .go, .go, .go]

end FleetPulse
