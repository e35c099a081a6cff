import FleetPulse.Pipeline.System

/-! Nothing is taken back: what every step of every process leaves of the stores.

    Rows are only added to `telemetry_batches`, `processed_events` and `dead_letters`, entries only to
    the two streams, agents stay, and an outbox row keeps what it was inserted with. This is the
    guarantee each process gives to the others, and what their local assertions rest on. -/

namespace FleetPulse
open Values Interleaving

/-- The later stores hold everything that the earlier ones held. -/
structure Grows (s s' : Stores) : Prop where
  agents : s.db.agents.keys ⊆ s'.db.agents.keys
  telemetryBatches : s.db.telemetryBatches.rows <+: s'.db.telemetryBatches.rows
  outboxEvents : s.db.outboxEvents.rows.map OutboxEventRecord.asInserted <+:
    s'.db.outboxEvents.rows.map OutboxEventRecord.asInserted
  processedEvents : s.db.processedEvents.rows <+: s'.db.processedEvents.rows
  deadLetterRows : s.db.deadLetters.rows <+: s'.db.deadLetters.rows
  entries : s.stream.entries <+: s'.stream.entries
  deadLetters : s.deadLetters <+: s'.deadLetters

namespace Grows

variable {s s' s'' : Stores}

theorem refl (s : Stores) : Grows s s :=
  ⟨List.Subset.refl _, List.prefix_rfl, List.prefix_rfl, List.prefix_rfl, List.prefix_rfl,
    List.prefix_rfl, List.prefix_rfl⟩

theorem trans (h : Grows s s') (h' : Grows s' s'') : Grows s s'' :=
  ⟨List.Subset.trans h.agents h'.agents, h.telemetryBatches.trans h'.telemetryBatches,
    h.outboxEvents.trans h'.outboxEvents, h.processedEvents.trans h'.processedEvents,
    h.deadLetterRows.trans h'.deadLetterRows, h.entries.trans h'.entries,
    h.deadLetters.trans h'.deadLetters⟩

/-- Stores that agree on the database and the two streams. -/
theorem of_eq (hdb : s'.db = s.db) (hstream : s'.stream.entries = s.stream.entries)
    (hdead : s'.deadLetters = s.deadLetters) : Grows s s' := by
  refine ⟨?_, ?_, ?_, ?_, ?_, ?_, ?_⟩ <;> simp [hdb, hstream, hdead]

theorem find?_telemetryBatches (h : Grows s s') {id : UUID} {r : TelemetryBatchRecord}
    (hr : s.db.telemetryBatches.find? id = some r) : s'.db.telemetryBatches.find? id = some r :=
  Table.find?_of_prefix h.telemetryBatches hr

theorem processed (h : Grows s s') {id : UUID} (hid : id ∈ s.db.processedEvents.keys) :
    id ∈ s'.db.processedEvents.keys :=
  Table.keys_subset_of_prefix h.processedEvents hid

/-- An outbox row is still there as it was inserted. -/
theorem outboxEvent (h : Grows s s') {event : OutboxEventRecord}
    (he : event ∈ s.db.outboxEvents.rows) :
    ∃ event' ∈ s'.db.outboxEvents.rows, event'.asInserted = event.asInserted :=
  List.mem_map.mp (h.outboxEvents.subset (List.mem_map_of_mem he))

theorem getElem? (h : Grows s s') {id : ℕ} {fields : Fields}
    (hid : s.stream.entries[id]? = some fields) : s'.stream.entries[id]? = some fields := by
  obtain ⟨rest, hrest⟩ := h.entries
  obtain ⟨hlt, -⟩ := List.getElem?_eq_some_iff.mp hid
  rw [← hrest, List.getElem?_append_left hlt]
  exact hid

end Grows

/-! ### One step -/

section
variable {libs : Libraries} {s : Stores}

theorem ingestBatch_grows {now createdAt : Instant} {eventId : UUID} {correlationId : String}
    {batch : TelemetryBatch} {db : Database} {r : IngestionResponse}
    (h : ingestBatch now createdAt eventId correlationId batch s.db = .ok (db, r)) :
    Grows s { s with db := db } := by
  have hagents : s.db.agents.keys ⊆ (upsertAgent now batch s.db.agents).keys :=
    Table.keys_subset_upsert _ _ _ _
  rcases ingestBatch_cases h with ⟨-, -, rfl⟩ |
    ⟨_, _, batches, outbox, -, -, -, -, hrows, hout, rfl⟩
  · exact ⟨hagents, List.prefix_rfl, List.prefix_rfl, List.prefix_rfl, List.prefix_rfl,
      List.prefix_rfl, List.prefix_rfl⟩
  · obtain ⟨-, hout⟩ := Table.insert_eq_some hout
    refine ⟨hagents, ?_, ?_, List.prefix_rfl, List.prefix_rfl, List.prefix_rfl, List.prefix_rfl⟩
    · simp only [hrows]; exact List.prefix_append _ _
    · simp only [hout, List.map_append]; exact List.prefix_append _ _

theorem processEvent_grows {settings : WorkerSettings} {messageId : ℕ} {event : QueueEvent}
    {db : Database} (h : processEvent libs settings messageId event s.db = .ok db) :
    Grows s { s with db := db } := by
  rcases processEvent_cases h with ⟨-, rfl⟩ | ⟨batch, processed, incidents, -, -, -, hrows, -, rfl⟩
  · exact Grows.refl s
  · refine ⟨List.Subset.refl _, List.prefix_rfl, List.prefix_rfl, ?_, List.prefix_rfl,
      List.prefix_rfl, List.prefix_rfl⟩
    simp only [hrows]; exact List.prefix_append _ _

theorem add_grows (fields : Fields) : Grows s { s with stream := s.stream.add fields } :=
  { Grows.refl s with entries := List.prefix_append _ _ }

theorem commitPublished_grows (added : List OutboxEventRecord) :
    Grows s { s with db := { s.db with
      outboxEvents := commitPublished added s.db.outboxEvents } } := by
  refine { Grows.refl s with outboxEvents := ?_ }
  simp only [asInserted_commitPublished]
  exact List.prefix_rfl

/-- No step of `handle_message` touches what the API and the relay write. -/
theorem advance_frame {settings : WorkerSettings} {id : ℕ} {fields : Fields} {h h' : Handling}
    {s' : Stores} (ha : advance libs settings id fields h s = .ok (h', s')) :
    s'.db.agents = s.db.agents ∧ s'.db.telemetryBatches = s.db.telemetryBatches ∧
      s'.db.outboxEvents = s.db.outboxEvents ∧ s'.stream.entries = s.stream.entries := by
  have hcases := advance_cases ha
  cases h with
  | received => rw [hcases.1]; exact ⟨rfl, rfl, rfl, rfl⟩
  | processing event =>
    rcases hcases with ⟨db, hprocess, -, rfl⟩ | ⟨e, -, -, -, rfl⟩
    · rcases processEvent_cases hprocess with ⟨-, rfl⟩ | ⟨_, _, _, -, -, -, -, -, rfl⟩ <;>
        exact ⟨rfl, rfl, rfl, rfl⟩
    · exact ⟨rfl, rfl, rfl, rfl⟩
  | failed error => rw [hcases.1]; exact ⟨rfl, rfl, rfl, rfl⟩
  | recording error attempts => rw [hcases.2.2]; exact ⟨rfl, rfl, rfl, rfl⟩
  | deadLettering _ _ | invalidating | settling | discarding | returned =>
    rw [hcases.2]; exact ⟨rfl, rfl, rfl, rfl⟩

theorem advance_grows {settings : WorkerSettings} {id : ℕ} {fields : Fields} {h h' : Handling}
    {s' : Stores} (ha : advance libs settings id fields h s = .ok (h', s')) : Grows s s' := by
  have hcases := advance_cases ha
  cases h with
  | received => rw [hcases.1]; exact Grows.refl s
  | processing event =>
    rcases hcases with ⟨db, hprocess, -, rfl⟩ | ⟨e, -, -, -, rfl⟩
    · exact processEvent_grows hprocess
    · exact Grows.refl _
  | failed error => rw [hcases.1]; exact Grows.refl s
  | deadLettering error attempts =>
    rw [hcases.2]
    exact { Grows.refl s with deadLetters := List.prefix_append _ _ }
  | recording error attempts =>
    rw [hcases.2.2]
    exact { Grows.refl s with deadLetterRows := Table.prefix_insertOrIgnore _ _ }
  | invalidating | settling | discarding | returned =>
    rw [hcases.2]; exact Grows.of_eq rfl rfl rfl

end

section
variable {ι : Type} [DecidableEq ι] {libs : Libraries} {settings : ι → WorkerSettings}
  {s s' : Shared ι} {l l' : Local} {e : Event}

theorem RelayStep.grows {i : ι} (h : RelayStep i s l e s' l') : Grows s.toStores s'.toStores := by
  cases h with
  | add row rows added now => exact add_grows _
  | commit added => exact commitPublished_grows added
  | _ => exact Grows.of_eq rfl rfl rfl

omit [DecidableEq ι] in
/-- No request for the fleet state touches anything but the cache. -/
theorem ReaderStep.frame (h : ReaderStep libs s l e s' l') :
    s'.db = s.db ∧ s'.stream = s.stream ∧ s'.deadLetters = s.deadLetters ∧ s'.locks = s.locks := by
  cases h <;> exact ⟨rfl, rfl, rfl, rfl⟩

/-- No step of any process takes anything back. -/
theorem Step.grows {i : ι} (h : Step libs settings i s l e s' l') :
    Grows s.toStores s'.toStores := by
  cases h with
  | api h => cases h with
    | commit hingest => exact ingestBatch_grows hingest
    | _ => exact Grows.refl _
  | relay h => exact h.grows
  | worker h => cases h with
    | advance _ ha => exact advance_grows ha
    | _ => exact Grows.of_eq rfl rfl rfl
  | reader h =>
    obtain ⟨hdb, hstream, hdead, -⟩ := h.frame
    exact Grows.of_eq hdb (by rw [hstream]) hdead
  | expire => exact Grows.of_eq rfl rfl rfl
  | stop => exact Grows.refl _

/-- GROWTH: what the stores hold at one moment of a run they hold ever after. -/
theorem steps_grow {c c' : Config ι (Shared ι) Local} {t : List (ι × Event)}
    (h : Steps (pipeline libs settings) c t c') : Grows c.shared.toStores c'.shared.toStores :=
  h.monotone (R := fun s s' => Grows s.toStores s'.toStores) (fun s => Grows.refl s.toStores)
    Grows.trans (fun _ _ _ _ _ _ h => Step.grows h)

end

end FleetPulse
