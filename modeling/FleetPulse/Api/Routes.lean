import FleetPulse.Api.Models

/-! The two routes of the ingestion API that the pipeline runs through: `ingest_batch`, one database
    transaction for each request, and the query behind `list_fleet_state`.

    The transaction inserts the batch and, only if the batch is new, the outbox event that announces
    it. Whatever raises inside rolls the whole transaction back, so the result is either an error or
    the new database with the answer. -/

namespace FleetPulse
open Values

inductive IngestionStatus where
  | accepted
  | duplicate
  deriving DecidableEq

structure IngestionResponse where
  batchId : UUID
  status : IngestionStatus
  requestId : String
  deriving DecidableEq

/-! ### ingest_batch -/

/-- The agent as a request made at `now` leaves it: a new row, or the old one with a new host name
    and a new `last_seen_at`. -/
def upsertAgent (now : Instant) (batch : TelemetryBatch) (agents : Table AgentRecord.agentId) :
    Table AgentRecord.agentId :=
  agents.upsert ⟨batch.agentId, batch.hostname, now, now⟩
    (fun r => { r with hostname := batch.hostname, lastSeenAt := now }) (fun _ => rfl)

theorem agentId_mem_upsertAgent (now : Instant) (batch : TelemetryBatch)
    (agents : Table AgentRecord.agentId) : batch.agentId ∈ (upsertAgent now batch agents).keys :=
  Table.key_mem_upsert agents ⟨batch.agentId, batch.hostname, now, now⟩ _ _

/-- `[sample.observed_at for sample in batch.samples]`. -/
def observedTimes (batch : TelemetryBatch) : List Instant :=
  batch.samples.map (fun sample => sample.observedAt.instant)

def batchRecord (batch : TelemetryBatch) (observedStart observedEnd : Instant) :
    TelemetryBatchRecord :=
  ⟨batch.batchId, batch.agentId, TelemetryBatch.schemaVersion, observedStart, observedEnd,
    batch.samples.length, batch.dump⟩

def eventPayload (batch : TelemetryBatch) (correlationId : String) : List (String × String) :=
  [("batch_id", batch.batchId.str), ("agent_id", batch.agentId), ("correlation_id", correlationId)]

def outboxEvent (createdAt : Instant) (eventId : UUID) (correlationId : String)
    (batch : TelemetryBatch) : OutboxEventRecord :=
  ⟨eventId, "telemetry_batch", batch.batchId.str, "telemetry.batch.accepted.v1",
    eventPayload batch correlationId, createdAt, none, 0⟩

/-- `ingest_batch` at the clock reading `now`. The server's default fills in `createdAt`, and
    `uuid4()` gives the event its id; an id that is taken already breaks the primary key. -/
def ingestBatch (now createdAt : Instant) (eventId : UUID) (correlationId : String)
    (batch : TelemetryBatch) (db : Database) : Except PyError (Database × IngestionResponse) := do
  let (some observedStart, some observedEnd) :=
    (pyMax (fun y best => decide (y < best)) (observedTimes batch),
      pyMax (fun y best => decide (best < y)) (observedTimes batch)) | .error .value
  execute (fitsVarchar 128 batch.agentId && fitsVarchar 255 batch.hostname)
  let agents := upsertAgent now batch db.agents
  execute (storable batch.dump)
  let (telemetryBatches, inserted) :=
    db.telemetryBatches.insertOrIgnore (batchRecord batch observedStart observedEnd)
  if inserted then
    execute (storableMapping (eventPayload batch correlationId))
    match db.outboxEvents.insert (outboxEvent createdAt eventId correlationId batch) with
    | none => .error .dbapi
    | some outboxEvents => .ok ({ db with agents, telemetryBatches, outboxEvents },
        ⟨batch.batchId, .accepted, correlationId⟩)
  else .ok ({ db with agents, telemetryBatches }, ⟨batch.batchId, .duplicate, correlationId⟩)

section
variable {now createdAt : Instant} {eventId : UUID} {correlationId : String}
  {batch : TelemetryBatch} {db db' : Database} {r : IngestionResponse}

theorem observedTimes_ne_nil (batch : TelemetryBatch) : observedTimes batch ≠ [] := by
  simpa [observedTimes] using batch.samples_ne_nil

/-- What a committed request does: a known batch only touches the agent; a new one is stored
    together with its outbox event. -/
theorem ingestBatch_cases
    (h : ingestBatch now createdAt eventId correlationId batch db = .ok (db', r)) :
    (batch.batchId ∈ db.telemetryBatches.keys ∧ r = ⟨batch.batchId, .duplicate, correlationId⟩ ∧
      db' = { db with agents := upsertAgent now batch db.agents }) ∨
    (∃ observedStart observedEnd telemetryBatches outboxEvents,
      batch.batchId ∉ db.telemetryBatches.keys ∧ r = ⟨batch.batchId, .accepted, correlationId⟩ ∧
      storable batch.dump = true ∧ storableMapping (eventPayload batch correlationId) = true ∧
      telemetryBatches.rows =
        db.telemetryBatches.rows ++ [batchRecord batch observedStart observedEnd] ∧
      db.outboxEvents.insert (outboxEvent createdAt eventId correlationId batch) =
        some outboxEvents ∧
      db' = { db with agents := upsertAgent now batch db.agents, telemetryBatches, outboxEvents }) := by
  obtain ⟨lo, hlo⟩ := Option.isSome_iff_exists.mp
    (pyMax_isSome (fun y best : Instant => decide (y < best)) (observedTimes_ne_nil batch))
  obtain ⟨hi, hhi⟩ := Option.isSome_iff_exists.mp
    (pyMax_isSome (fun y best : Instant => decide (best < y)) (observedTimes_ne_nil batch))
  simp only [ingestBatch, hlo, hhi] at h
  obtain ⟨_, -, h⟩ := bind_eq_ok.mp h
  obtain ⟨_, hstorable, h⟩ := bind_eq_ok.mp h
  rw [execute_eq_ok] at hstorable
  rcases db.telemetryBatches.insertOrIgnore_cases (batchRecord batch lo hi) with
    ⟨hmem, -, hins⟩ | ⟨hmem, hrows, hins⟩
  · rw [Table.insertOrIgnore_of_mem hmem] at h
    simp only [Bool.false_eq_true, if_false, Except.ok.injEq, Prod.mk.injEq] at h
    exact Or.inl ⟨hmem, h.2.symm, h.1.symm⟩
  · simp only [hins, if_true] at h
    obtain ⟨_, hpayload, h⟩ := bind_eq_ok.mp h
    rw [execute_eq_ok] at hpayload
    split at h
    · cases h
    · next outboxEvents hout =>
      cases h
      exact Or.inr ⟨lo, hi, _, outboxEvents, hmem, rfl, hstorable, hpayload, hrows, hout, rfl⟩

end

/-! ### list_fleet_state -/

structure FleetStateView where
  agentId : String
  lastBatchId : UUID
  observedAt : Instant
  cpuPercent : PyFloat
  memoryPercent : PyFloat
  diskPercent : PyFloat
  deriving DecidableEq

/-- `FleetStateView.model_validate(row, from_attributes=True)`. -/
def fleetStateView (row : FleetStateRecord) : FleetStateView :=
  ⟨row.agentId, row.lastBatchId, row.observedAt, row.cpuPercent, row.memoryPercent,
    row.diskPercent⟩

/-- `select(FleetStateRecord).order_by(FleetStateRecord.agent_id)`, as views. -/
def selectFleetState (libs : Libraries) (db : Database) : List FleetStateView :=
  (db.fleetState.rows.insertionSort (fun a b => libs.collate a.agentId b.agentId = true)).map
    fleetStateView

/-- The list has the rows of the table and no others. -/
theorem mem_selectFleetState {libs : Libraries} {db : Database} {v : FleetStateView} :
    v ∈ selectFleetState libs db ↔ ∃ row ∈ db.fleetState.rows, fleetStateView row = v := by
  simp [selectFleetState, List.mem_insertionSort]

/-- The list is in the order of its agents. -/
theorem selectFleetState_sorted (libs : Libraries) (db : Database) :
    (selectFleetState libs db).Pairwise (fun a b => libs.collate a.agentId b.agentId = true) := by
  have htotal : Std.Total (fun a b : FleetStateRecord => libs.collate a.agentId b.agentId = true) :=
    ⟨fun a b => by simpa using libs.collate_total a.agentId b.agentId⟩
  have htrans : IsTrans FleetStateRecord (fun a b => libs.collate a.agentId b.agentId = true) :=
    ⟨fun a b c => libs.collate_trans a.agentId b.agentId c.agentId⟩
  have hsorted := List.pairwise_insertionSort
    (fun a b : FleetStateRecord => libs.collate a.agentId b.agentId = true) db.fleetState.rows
  exact List.pairwise_map.mpr hsorted

end FleetPulse
