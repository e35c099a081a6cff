import FleetPulse.Lib.ConsumerGroup
import FleetPulse.Api.Routes
import FleetPulse.Worker.Relay

/-! The worker: `decode_event`, the transaction of `process_event`, and `handle_message` with its
    dead-letter path.

    `handle_message` is cut where the source awaits; `advance` runs it from one await to the next:

        received ──▶ processing ──▶ invalidating ──▶ settling ──▶ returned
            │            │                                           ▲
            └──▶ failed ◀┘ ── attempts left ─────────────────────────┤
                   │                                                 │
                   ▼ attempts used up                                │
             deadLettering ──▶ recording ──▶ discarding ─────────────┘

    An error that the `except` clause does not name, or one raised inside that clause, escapes into
    `run`. `handleMessage` iterates `advance` with nobody in between; the pipeline interleaves the
    same steps with those of all other processes. Log lines, metrics and the correlation id of the
    log context are left out. -/

namespace FleetPulse
open Values

/-- The settings a worker reads; the consumer name defaults to the host name with eight hexadecimal
    digits, which is what its column is made for. -/
structure WorkerSettings where
  consumerName : String
  maxDeliveryAttempts : ℕ
  cpuIncidentThreshold : PyFloat
  memoryIncidentThreshold : PyFloat
  consumerName_fits : fitsVarchar 128 consumerName = true
  attempts_pos : 1 ≤ maxDeliveryAttempts
  cpu_valid : percentage cpuIncidentThreshold = true
  memory_valid : percentage memoryIncidentThreshold = true

/-- The settings that decide about incidents. -/
def WorkerSettings.thresholds (settings : WorkerSettings) : PyFloat × PyFloat :=
  (settings.cpuIncidentThreshold, settings.memoryIncidentThreshold)

structure QueueEvent where
  eventId : UUID
  eventType : String
  aggregateId : String
  payload : List (Json.CodePoints × Json.CodePoints)
  deriving DecidableEq

/-! ### decode_event -/

/-- `fields[name]`. -/
def fieldOf (fields : Fields) (name : String) : Except PyError String :=
  match fields.lookup name with
  | some value => .ok value
  | none => .error .key

/-- What `json.loads` raises, as an exception class. -/
def loadError : Json.LoadError → PyError
  | .decode => .jsonDecode
  | .value => .value
  | .recursion => .recursion

/-- `dict[str, str]`. -/
def validateMapping : Json.Text → Option (List (Json.CodePoints × Json.CodePoints))
  | .obj kvs => kvs.mapM (fun kv => match kv.2 with
      | .str s => some (kv.1, s)
      | _ => none)
  | _ => none

def decodeEvent (libs : Libraries) (fields : Fields) : Except PyError QueueEvent := do
  let eventId ← fieldOf fields "event_id"
  let eventType ← fieldOf fields "event_type"
  let aggregateId ← fieldOf fields "aggregate_id"
  let text ← fieldOf fields "payload"
  let payload ← (Json.loads libs.recursionLimit text).mapError loadError
  match libs.validateUuid eventId, validateMapping payload with
  | some eventId, some payload => .ok ⟨eventId, eventType, aggregateId, payload⟩
  | _, _ => .error .validation

/-- The event that an outbox row announces. -/
def queueEvent (event : OutboxEventRecord) : QueueEvent :=
  ⟨event.eventId, event.eventType, event.aggregateId,
    event.payload.map (fun kv => (Json.codePoints kv.1, Json.codePoints kv.2))⟩

theorem validateMapping_textOf : ∀ kvs : List (String × String),
    validateMapping (.obj (Json.textOf kvs)) =
      some (kvs.map (fun kv => (Json.codePoints kv.1, Json.codePoints kv.2)))
  | [] => rfl
  | kv :: kvs => by
      have h := validateMapping_textOf kvs
      simp only [validateMapping, Json.textOf] at h ⊢
      rw [List.map_cons, List.mapM_cons, h]
      rfl

/-- ROUND TRIP: the worker decodes what the relay builds from a row. -/
theorem decodeEvent_publishFields (libs : Libraries) {event : OutboxEventRecord}
    (h : (event.payload.map Prod.fst).Nodup) :
    decodeEvent libs (publishFields event) = .ok (queueEvent event) := by
  have hloads := Json.loads_dumps libs.recursionLimit event.payload h
  have hmapping := validateMapping_textOf event.payload
  simp [decodeEvent, publishFields, fieldOf, List.lookup_cons, hloads, hmapping, bind, Except.bind,
    Except.mapError, libs.validateUuid_str, queueEvent]

/-! ### process_event -/

/-- The batch that an event names: bound to the UUID column, selected by `scalar_one()`, revalidated
    from its payload. -/
def storedBatch (libs : Libraries) (aggregateId : String) (db : Database) :
    Except PyError TelemetryBatch := do
  let some batchId := libs.bindUuid aggregateId | throw .dbapi
  let some record := db.telemetryBatches.find? batchId | throw .noResultFound
  let some batch := TelemetryBatch.validate libs record.payload | throw .validation
  return batch

/-- `max(batch.samples, key=lambda sample: sample.observed_at)`. -/
def latestSample (batch : TelemetryBatch) : Option TelemetrySample :=
  pyMax (fun sample best => decide (best.observedAt.instant < sample.observedAt.instant))
    batch.samples

/-- `max(disk.used_percent for disk in latest.disks)`. -/
def maxDiskPercent (latest : TelemetrySample) : Option PyFloat :=
  pyMax (fun percent best => best.lt percent) (latest.disks.map DiskTelemetry.usedPercent)

def fleetStateRow (batch : TelemetryBatch) (latest : TelemetrySample) (diskPercent : PyFloat) :
    FleetStateRecord :=
  ⟨batch.agentId, batch.batchId, latest.observedAt.instant, latest.cpuPercent,
    latest.memory.usedPercent, diskPercent⟩

/-- The row goes in, or every column of the agent's row but its key is set. -/
def upsertFleetState (row : FleetStateRecord) (fleetState : Table FleetStateRecord.agentId) :
    Table FleetStateRecord.agentId :=
  fleetState.upsert row (fun r => { row with agentId := r.agentId }) (fun _ => rfl)

/-- The conditions of a sample: incident type, value and threshold. -/
def conditions (thresholds : PyFloat × PyFloat) (latest : TelemetrySample) :
    List (String × PyFloat × PyFloat) :=
  [("high_cpu", latest.cpuPercent, thresholds.1),
    ("high_memory", latest.memory.usedPercent, thresholds.2)]

def incidentRecord (batch : TelemetryBatch) (incidentType : String) (value threshold : PyFloat) :
    IncidentRecord :=
  ⟨batch.agentId, incidentType, batch.agentId ++ ":" ++ incidentType, "open", "warning",
    incidentType ++ " threshold crossed", ⟨batch.batchId.str, value, threshold⟩⟩

/-- One condition: from its threshold on, an open incident unless there is one already. The agent
    exists, since the statement before this one refers to it too. -/
def openIncident (batch : TelemetryBatch) (incidents : Table IncidentRecord.uniqueKey)
    (condition : String × PyFloat × PyFloat) :
    Except PyError (Table IncidentRecord.uniqueKey) := do
  if condition.2.2.le condition.2.1 then
    execute (condition.2.1.isFinite && condition.2.2.isFinite)
    .ok (incidents.insertOrIgnore
      (incidentRecord batch condition.1 condition.2.1 condition.2.2)).1
  else .ok incidents

/-- The transaction of `process_event`: the new database, or what it raises (and then nothing is
    written). -/
def processEvent (libs : Libraries) (settings : WorkerSettings) (messageId : ℕ) (event : QueueEvent)
    (db : Database) : Except PyError Database := do
  let (processedEvents, inserted) :=
    db.processedEvents.insertOrIgnore ⟨event.eventId, messageId, settings.consumerName⟩
  if !inserted then
    return db
  if event.eventType ≠ "telemetry.batch.accepted.v1" then
    throw .value
  let batch ← storedBatch libs event.aggregateId db
  let some latest := latestSample batch | throw .value
  let some diskPercent := maxDiskPercent latest | throw .value
  execute (decide (batch.agentId ∈ db.agents.keys))
  let fleetState := upsertFleetState (fleetStateRow batch latest diskPercent) db.fleetState
  let incidents ← (conditions settings.thresholds latest).foldlM (openIncident batch) db.incidents
  return { db with processedEvents, fleetState, incidents }

theorem latestSample_isSome (batch : TelemetryBatch) : (latestSample batch).isSome :=
  pyMax_isSome _ batch.samples_ne_nil

/-- The sample that `process_event` goes by. -/
def latest (batch : TelemetryBatch) : TelemetrySample :=
  (latestSample batch).get (latestSample_isSome batch)

theorem latestSample_eq (batch : TelemetryBatch) : latestSample batch = some (latest batch) :=
  (Option.some_get _).symm

theorem latest_mem (batch : TelemetryBatch) : latest batch ∈ batch.samples :=
  pyMax_mem _ (latestSample_eq batch)

/-- No sample of the batch was observed after it. -/
theorem observedAt_le_latest (batch : TelemetryBatch) : ∀ sample ∈ batch.samples,
    sample.observedAt.instant ≤ (latest batch).observedAt.instant :=
  pyMax_key_le (fun sample : TelemetrySample => sample.observedAt.instant) (latestSample_eq batch)

theorem maxDiskPercent_isSome (batch : TelemetryBatch) : (maxDiskPercent (latest batch)).isSome := by
  refine pyMax_isSome _ ?_
  simpa using TelemetrySample.disks_ne_nil (batch.sample_valid _ (latest_mem batch))

/-- The fullest disk of that sample. -/
def diskPercent (batch : TelemetryBatch) : PyFloat :=
  (maxDiskPercent (latest batch)).get (maxDiskPercent_isSome batch)

theorem maxDiskPercent_eq (batch : TelemetryBatch) :
    maxDiskPercent (latest batch) = some (diskPercent batch) := (Option.some_get _).symm

/-- The row that a batch gives its agent. -/
def fleetStateOf (batch : TelemetryBatch) : FleetStateRecord :=
  fleetStateRow batch (latest batch) (diskPercent batch)

section
variable {libs : Libraries} {settings : WorkerSettings} {messageId : ℕ} {event : QueueEvent}
  {db db' : Database}

theorem storedBatch_eq_ok {aggregateId : String} {batch : TelemetryBatch} :
    storedBatch libs aggregateId db = .ok batch ↔ ∃ batchId record,
      libs.bindUuid aggregateId = some batchId ∧ db.telemetryBatches.find? batchId = some record ∧
      TelemetryBatch.validate libs record.payload = some batch := by
  unfold storedBatch
  constructor
  · intro h
    split at h
    · next batchId hid =>
      split at h
      · next record hrec =>
        split at h
        · next batch' hval =>
          cases h
          exact ⟨batchId, record, hid, hrec, hval⟩
        · cases h
      · cases h
    · cases h
  · rintro ⟨batchId, record, hid, hrec, hval⟩
    simp only [hid, hrec, hval]
    rfl

/-- What a committed `process_event` does: nothing for an event that was processed before, and for a
    new one the row of the agent and the incidents of its batch. -/
theorem processEvent_cases (h : processEvent libs settings messageId event db = .ok db') :
    (event.eventId ∈ db.processedEvents.keys ∧ db' = db) ∨
    (∃ batch processedEvents incidents, event.eventId ∉ db.processedEvents.keys ∧
      event.eventType = "telemetry.batch.accepted.v1" ∧
      storedBatch libs event.aggregateId db = .ok batch ∧
      processedEvents.rows =
        db.processedEvents.rows ++ [⟨event.eventId, messageId, settings.consumerName⟩] ∧
      (conditions settings.thresholds (latest batch)).foldlM (openIncident batch) db.incidents =
        .ok incidents ∧
      db' = { db with processedEvents, incidents,
                      fleetState := upsertFleetState (fleetStateOf batch) db.fleetState }) := by
  unfold processEvent at h
  rcases db.processedEvents.insertOrIgnore_cases ⟨event.eventId, messageId, settings.consumerName⟩
    with ⟨hmem, -, hins⟩ | ⟨hmem, hrows, hins⟩
  · simp only [hins, Bool.not_false, if_true] at h
    cases h
    exact Or.inl ⟨hmem, rfl⟩
  · simp only [hins, Bool.not_true, Bool.false_eq_true, if_false] at h
    split at h
    · cases h
    · next htype =>
      obtain ⟨batch, hbatch, h⟩ := bind_eq_ok.mp h
      simp only [latestSample_eq, maxDiskPercent_eq] at h
      obtain ⟨_, -, h⟩ := bind_eq_ok.mp h
      obtain ⟨incidents, hincidents, h⟩ := bind_eq_ok.mp h
      cases h
      exact Or.inr ⟨batch, _, incidents, hmem, not_not.mp htype, hbatch, hrows, hincidents, rfl⟩

end

/-! ### handle_message -/

/-- An entry of the dead-letter stream. -/
structure DeadLetterEntry where
  sourceId : ℕ
  error : String
  payload : String
  deriving DecidableEq

/-- What a worker reaches: PostgreSQL, and in Redis the telemetry stream with its consumer group, the
    dead-letter stream and the cached fleet state. -/
structure Stores where
  db : Database
  stream : ConsumerGroup Fields
  deadLetters : List DeadLetterEntry
  cache : Option (List FleetStateView)

/-- `except (ValidationError, KeyError, ValueError, json.JSONDecodeError)`. -/
def PyError.caught : PyError → Bool
  | .validation | .key | .value | .jsonDecode => true
  | .recursion | .noResultFound | .dbapi | .integrity | .overflow => false

/-- Where a run of `handle_message` stands. -/
inductive Handling where
  | received
  | processing (event : QueueEvent)
  | invalidating
  | settling
  | failed (error : PyError)
  | deadLettering (error : PyError) (attempts : ℕ)
  | recording (error : PyError) (attempts : ℕ)
  | discarding
  | returned
  deriving DecidableEq

def deadLetterEntry (id : ℕ) (fields : Fields) (error : PyError) : DeadLetterEntry :=
  ⟨id, error.typeName, Json.dumpsWith [',', ' '] [':', ' '] fields⟩

def deadLetterRecord (id : ℕ) (fields : Fields) (error : PyError) (attempts : ℕ) :
    DeadLetterRecord :=
  ⟨id, (fields.lookup "event_id").getD "unknown", error.typeName, attempts, fields⟩

/-- What the columns of `dead_letters` accept. -/
def DeadLetterRecord.storable (r : DeadLetterRecord) : Bool :=
  fitsVarchar 128 r.eventId && fitsInteger r.attempts && storableMapping r.payload

/-- `delivery_attempts`. -/
def deliveryAttempts (stream : ConsumerGroup Fields) (id : ℕ) : ℕ :=
  (stream.timesDelivered id).getD 1

/-- The `try` block: an error that the clause names is kept, another one escapes. -/
def tryBlock (s : Stores) : Except PyError (Handling × Stores) → Except PyError (Handling × Stores)
  | .ok r => .ok r
  | .error e => if e.caught then .ok (.failed e, s) else .error e

/-- `handle_message` from one await to the next. -/
def advance (libs : Libraries) (settings : WorkerSettings) (id : ℕ) (fields : Fields)
    (h : Handling) (s : Stores) : Except PyError (Handling × Stores) :=
  match h with
  | .received => tryBlock s ((decodeEvent libs fields).map (fun event => (.processing event, s)))
  | .processing event => tryBlock s
      ((processEvent libs settings id event s.db).map (fun db => (.invalidating, { s with db })))
  | .invalidating => .ok (.settling, { s with cache := none })
  | .settling => .ok (.returned, { s with stream := s.stream.ack id })
  | .failed error =>
    let attempts := deliveryAttempts s.stream id
    if settings.maxDeliveryAttempts ≤ attempts then .ok (.deadLettering error attempts, s)
    else .ok (.returned, s)
  | .deadLettering error attempts => .ok (.recording error attempts,
      { s with deadLetters := s.deadLetters ++ [deadLetterEntry id fields error] })
  | .recording error attempts => do
    execute (deadLetterRecord id fields error attempts).storable
    .ok (.discarding, { s with db := { s.db with deadLetters :=
      (s.db.deadLetters.insertOrIgnore (deadLetterRecord id fields error attempts)).1 } })
  | .discarding => .ok (.returned, { s with stream := s.stream.ack id })
  | .returned => .ok (.returned, s)

theorem tryBlock_eq_ok {s s' : Stores} {x : Except PyError (Handling × Stores)} {h : Handling}
    (hx : tryBlock s x = .ok (h, s')) :
    x = .ok (h, s') ∨ (∃ e, x = .error e ∧ e.caught = true ∧ h = .failed e ∧ s' = s) := by
  cases x with
  | ok r => exact Or.inl hx
  | error e =>
    simp only [tryBlock] at hx
    split at hx
    · next hc => cases hx; exact Or.inr ⟨e, rfl, hc, rfl, rfl⟩
    · cases hx

theorem map_eq_ok {ε α β : Type} {x : Except ε α} {f : α → β} {b : β} :
    x.map f = .ok b ↔ ∃ a, x = .ok a ∧ f a = b := by
  cases x <;> simp [Except.map]

theorem map_eq_error {ε α β : Type} {x : Except ε α} {f : α → β} {e : ε} :
    x.map f = .error e ↔ x = .error e := by
  cases x <;> simp [Except.map]

/-- What each step of `handle_message` can do. -/
theorem advance_cases {libs : Libraries} {settings : WorkerSettings} {id : ℕ} {fields : Fields}
    {h h' : Handling} {s s' : Stores} (ha : advance libs settings id fields h s = .ok (h', s')) :
    match h with
    | .received => s' = s ∧ ((∃ event, decodeEvent libs fields = .ok event ∧
        h' = .processing event) ∨
        ∃ e, decodeEvent libs fields = .error e ∧ e.caught = true ∧ h' = .failed e)
    | .processing event => (∃ db, processEvent libs settings id event s.db = .ok db ∧
        h' = .invalidating ∧ s' = { s with db := db }) ∨
        ∃ e, processEvent libs settings id event s.db = .error e ∧ e.caught = true ∧
          h' = .failed e ∧ s' = s
    | .invalidating => h' = .settling ∧ s' = { s with cache := none }
    | .settling => h' = .returned ∧ s' = { s with stream := s.stream.ack id }
    | .failed error => s' = s ∧ ((settings.maxDeliveryAttempts ≤ deliveryAttempts s.stream id ∧
        h' = .deadLettering error (deliveryAttempts s.stream id)) ∨
        deliveryAttempts s.stream id < settings.maxDeliveryAttempts ∧ h' = .returned)
    | .deadLettering error attempts => h' = .recording error attempts ∧
        s' = { s with deadLetters := s.deadLetters ++ [deadLetterEntry id fields error] }
    | .recording error attempts => (deadLetterRecord id fields error attempts).storable = true ∧
        h' = .discarding ∧ s' = { s with db := { s.db with deadLetters :=
          (s.db.deadLetters.insertOrIgnore (deadLetterRecord id fields error attempts)).1 } }
    | .discarding => h' = .returned ∧ s' = { s with stream := s.stream.ack id }
    | .returned => h' = .returned ∧ s' = s := by
  cases h with
  | received =>
    rcases tryBlock_eq_ok ha with hx | ⟨e, hx, hc, rfl, rfl⟩
    · obtain ⟨event, hdecode, hr⟩ := map_eq_ok.mp hx
      cases hr
      exact ⟨rfl, Or.inl ⟨event, hdecode, rfl⟩⟩
    · exact ⟨rfl, Or.inr ⟨e, map_eq_error.mp hx, hc, rfl⟩⟩
  | processing event =>
    rcases tryBlock_eq_ok ha with hx | ⟨e, hx, hc, rfl, rfl⟩
    · obtain ⟨db, hprocess, hr⟩ := map_eq_ok.mp hx
      cases hr
      exact Or.inl ⟨db, hprocess, rfl, rfl⟩
    · exact Or.inr ⟨e, map_eq_error.mp hx, hc, rfl, rfl⟩
  | failed error =>
    simp only [advance] at ha
    split at ha
    · next hle => cases ha; exact ⟨rfl, Or.inl ⟨hle, rfl⟩⟩
    · next hlt => cases ha; exact ⟨rfl, Or.inr ⟨not_le.mp hlt, rfl⟩⟩
  | recording error attempts =>
    obtain ⟨_, hstorable, hr⟩ := bind_eq_ok.mp ha
    cases hr
    exact ⟨execute_eq_ok.mp hstorable, rfl, rfl⟩
  | invalidating | settling | deadLettering _ _ | discarding | returned =>
    cases ha; exact ⟨rfl, rfl⟩

/-- At most `n` steps of `handle_message`. -/
def advanceTimes (libs : Libraries) (settings : WorkerSettings) (id : ℕ) (fields : Fields) :
    ℕ → Handling → Stores → Except PyError (Handling × Stores)
  | 0, h, s => .ok (h, s)
  | n + 1, h, s => (advance libs settings id fields h s).bind
      (fun r => advanceTimes libs settings id fields n r.1 r.2)

/-- `handle_message` with nobody in between: no path has more than six steps. -/
def handleMessage (libs : Libraries) (settings : WorkerSettings) (id : ℕ) (fields : Fields)
    (s : Stores) : Except PyError (Handling × Stores) :=
  advanceTimes libs settings id fields 6 .received s

end FleetPulse
