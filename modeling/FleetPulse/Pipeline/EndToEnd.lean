import FleetPulse.Pipeline.Durability

/-! What ingestion writes, the relay publishes and the worker accepts agree.

    An outbox row stands for an accepted batch (`Accepted`). Its stream entry decodes, its batch is
    found and revalidates to the batch that was ingested, and the transaction of the worker does not
    raise. Hence no entry of a stream that only the relay feeds is ever dead-lettered. -/

namespace FleetPulse
open Values Interleaving

/-- The outbox row was inserted for the batch, whose row and whose agent are stored. -/
structure Accepted (s : Stores) (row : OutboxEventRecord) (batch : TelemetryBatch) : Prop where
  event : ∃ createdAt correlationId,
    row.asInserted = outboxEvent createdAt row.eventId correlationId batch
  record : ∃ observedStart observedEnd,
    batchRecord batch observedStart observedEnd ∈ s.db.telemetryBatches.rows
  agent : batch.agentId ∈ s.db.agents.keys
  storable : storable batch.dump = true

section
variable {libs : Libraries} {s s' : Stores} {row : OutboxEventRecord} {batch : TelemetryBatch}

theorem Accepted.mono (hg : Grows s s') (h : Accepted s row batch) : Accepted s' row batch where
  event := h.event
  record := by
    obtain ⟨lo, hi, hrecord⟩ := h.record
    exact ⟨lo, hi, hg.telemetryBatches.subset hrecord⟩
  agent := hg.agents h.agent
  storable := h.storable

theorem exists_rel_of_mem {α β : Type} {R : α → β → Prop} {as : List α} {bs : List β}
    (h : List.Forall₂ R as bs) {a : α} (ha : a ∈ as) : ∃ b ∈ bs, R a b := by
  obtain ⟨i, rfl⟩ := List.mem_iff_get.mp ha
  exact ⟨_, List.get_mem bs ⟨i, h.length_eq ▸ i.isLt⟩, h.get i.isLt _⟩

/-- Every outbox row was inserted for a batch. -/
theorem Durable.accepted (hd : Durable libs s) (hrow : InOutbox s row) :
    ∃ batch, Accepted s row batch := by
  obtain ⟨record, hrecord, batch, createdAt, correlationId, lo, hi, hevent, rfl, hstorable⟩ :=
    exists_rel_of_mem hd.announced hrow
  exact ⟨batch, ⟨createdAt, correlationId, hevent⟩, ⟨lo, hi, hrecord⟩, hd.known _ hrecord,
    hstorable⟩

/-- The entry of the row decodes to its event. -/
theorem Accepted.decodes (h : Accepted s row batch) :
    decodeEvent libs (publishFields row) = .ok (queueEvent row) := by
  obtain ⟨createdAt, correlationId, hevent⟩ := h.event
  have hkeys : (row.payload.map Prod.fst).Nodup := by
    have hpayload : row.payload = eventPayload batch correlationId :=
      congrArg OutboxEventRecord.payload hevent
    simp [hpayload, eventPayload]
  exact decodeEvent_publishFields libs hkeys

theorem Accepted.aggregateId (h : Accepted s row batch) : row.aggregateId = batch.batchId.str := by
  obtain ⟨_, _, hevent⟩ := h.event
  exact congrArg OutboxEventRecord.aggregateId hevent

theorem Accepted.eventType (h : Accepted s row batch) :
    row.eventType = "telemetry.batch.accepted.v1" := by
  obtain ⟨_, _, hevent⟩ := h.event
  exact congrArg OutboxEventRecord.eventType hevent

theorem Accepted.finite (h : Accepted s row batch) : batch.finite = true :=
  finite_of_storable_batch h.storable

/-- The row of the batch is found, and its payload revalidates to the batch. -/
theorem Accepted.find? (h : Accepted s row batch) (libs : Libraries) : ∃ record,
    s.db.telemetryBatches.find? batch.batchId = some record ∧
    TelemetryBatch.validate libs record.payload = some batch := by
  obtain ⟨lo, hi, hrecord⟩ := h.record
  exact ⟨_, Table.find?_eq_some_iff.mpr ⟨hrecord, rfl⟩,
    TelemetryBatch.validate_dump libs h.finite⟩

theorem Accepted.storedBatch (h : Accepted s row batch) (libs : Libraries) :
    storedBatch libs row.aggregateId s.db = .ok batch := by
  obtain ⟨record, hfind, hvalidate⟩ := h.find? libs
  exact storedBatch_eq_ok.mpr ⟨batch.batchId, record,
    by rw [h.aggregateId, libs.bindUuid_str], hfind, hvalidate⟩

/-- A percentage that reaches a threshold makes an incident that can be stored. -/
theorem openIncident_ok (batch : TelemetryBatch) (incidents : Table IncidentRecord.uniqueKey)
    (incidentType : String) {value threshold : PyFloat} (hvalue : percentage value = true)
    (hthreshold : percentage threshold = true) :
    ∃ incidents', openIncident batch incidents (incidentType, value, threshold) =
      .ok incidents' := by
  unfold openIncident
  split
  · rw [isFinite_of_percentage hvalue, isFinite_of_percentage hthreshold]
    exact ⟨_, rfl⟩
  · exact ⟨_, rfl⟩

/-- The incidents of a batch are stored without a failure. -/
theorem incidents_ok (settings : WorkerSettings) (batch : TelemetryBatch)
    (incidents : Table IncidentRecord.uniqueKey) : ∃ incidents',
      (conditions settings.thresholds (latest batch)).foldlM (openIncident batch) incidents =
        .ok incidents' := by
  have hsample := batch.sample_valid _ (latest_mem batch)
  simp only [TelemetrySample.valid, MemoryTelemetry.valid, Bool.and_eq_true] at hsample
  obtain ⟨⟨⟨⟨⟨⟨⟨⟨⟨-, hcpu⟩, -⟩, -⟩, -⟩, -, hmemory⟩, -⟩, -⟩, -⟩, -⟩ := hsample
  obtain ⟨incidents₁, h₁⟩ := openIncident_ok batch incidents "high_cpu" hcpu settings.cpu_valid
  obtain ⟨incidents₂, h₂⟩ :=
    openIncident_ok batch incidents₁ "high_memory" hmemory settings.memory_valid
  refine ⟨incidents₂, ?_⟩
  simp only [conditions, WorkerSettings.thresholds, List.foldlM_cons, List.foldlM_nil, h₁, h₂,
    bind, Except.bind, pure, Except.pure]

/-- The transaction commits for an event that was processed before, and for one of the right type
    whose batch and whose agent are stored. -/
theorem processEvent_commits (libs : Libraries) (settings : WorkerSettings) (messageId : ℕ)
    {event : QueueEvent} {db : Database} (h : event.eventId ∉ db.processedEvents.keys →
      event.eventType = "telemetry.batch.accepted.v1" ∧ ∃ batch,
        storedBatch libs event.aggregateId db = .ok batch ∧ batch.agentId ∈ db.agents.keys) :
    ∃ db', processEvent libs settings messageId event db = .ok db' := by
  unfold processEvent
  rcases db.processedEvents.insertOrIgnore_cases ⟨event.eventId, messageId, settings.consumerName⟩
    with ⟨-, -, hins⟩ | ⟨hnew, -, hins⟩
  · simp only [hins, Bool.not_false, if_true]
    exact ⟨_, rfl⟩
  · obtain ⟨htype, batch, hbatch, hagent⟩ := h hnew
    obtain ⟨incidents, hincidents⟩ := incidents_ok settings batch db.incidents
    simp only [hins, Bool.not_true, Bool.false_eq_true, if_false, htype, ne_eq, not_true_eq_false,
      hbatch, latestSample_eq, maxDiskPercent_eq, hagent, decide_true, execute, if_true, hincidents,
      bind, Except.bind, pure, Except.pure]
    exact ⟨_, rfl⟩

/-- The transaction of the worker commits for every event of an accepted batch. -/
theorem Accepted.processes (h : Accepted s row batch) (libs : Libraries)
    (settings : WorkerSettings) (messageId : ℕ) :
    ∃ db, processEvent libs settings messageId (queueEvent row) s.db = .ok db :=
  processEvent_commits libs settings messageId
    (fun _ => ⟨h.eventType, batch, h.storedBatch libs, h.agent⟩)

/-- An entry that the relay added decodes to the event of a row with an accepted batch. -/
theorem Durable.entry (hd : Durable libs s) {id : ℕ} {fields : Fields}
    (h : s.stream.entries[id]? = some fields) :
    ∃ row batch, Accepted s row batch ∧ decodeEvent libs fields = .ok (queueEvent row) := by
  obtain ⟨row, hrow, rfl⟩ := hd.fed fields (List.mem_of_getElem? h)
  obtain ⟨batch, hbatch⟩ := hd.accepted hrow
  exact ⟨row, batch, hbatch, hbatch.decodes⟩

end

/-! ### No dead letters -/

/-- Not on the way to the dead-letter queue. -/
def Handling.unfailing : Handling → Bool
  | .failed _ | .deadLettering _ _ | .recording _ _ | .discarding => false
  | _ => true

def Local.unfailing : Local → Bool
  | .handling _ _ _ _ h => h.unfailing
  | _ => true

/-- Neither dead-letter store holds anything. -/
def NoDeadLetters (s : Stores) : Prop := s.deadLetters = [] ∧ s.db.deadLetters.rows = []

/-- Handling an entry that the relay added never fails. -/
theorem advance_unfailing {libs : Libraries} {settings : WorkerSettings} {id : ℕ} {fields : Fields}
    {h h' : Handling} {s s' : Stores} (hd : Durable libs s)
    (hentry : s.stream.entries[id]? = some fields) (hdone : handlingDone libs s id fields h)
    (hu : h.unfailing = true) (hn : NoDeadLetters s)
    (ha : advance libs settings id fields h s = .ok (h', s')) :
    h'.unfailing = true ∧ NoDeadLetters s' := by
  obtain ⟨row, batch, hbatch, hdecode⟩ := hd.entry hentry
  have hcases := advance_cases ha
  cases h with
  | received =>
    obtain ⟨rfl, ⟨event, -, rfl⟩ | ⟨e, herror, -, -⟩⟩ := hcases
    · exact ⟨rfl, hn⟩
    · rw [hdecode] at herror; cases herror
  | processing event =>
    obtain rfl : queueEvent row = event := Except.ok.inj (hdecode.symm.trans hdone)
    obtain ⟨db', hprocess⟩ := hbatch.processes libs settings id
    rcases hcases with ⟨db, hok, rfl, rfl⟩ | ⟨e, herror, -, -, -⟩
    · refine ⟨rfl, hn.1, ?_⟩
      rcases processEvent_cases hok with ⟨-, rfl⟩ | ⟨_, _, _, -, -, -, -, -, rfl⟩ <;> exact hn.2
    · rw [hprocess] at herror; cases herror
  | invalidating => obtain ⟨rfl, rfl⟩ := hcases; exact ⟨rfl, hn⟩
  | settling => obtain ⟨rfl, rfl⟩ := hcases; exact ⟨rfl, hn⟩
  | returned => obtain ⟨rfl, rfl⟩ := hcases; exact ⟨rfl, hn⟩
  | failed _ | deadLettering _ _ | recording _ _ | discarding => cases hu

section
variable {ι : Type} [DecidableEq ι] {libs : Libraries} {settings : ι → WorkerSettings}
  {s s' : Shared ι} {l l' : Local} {e : Event} {i : ι}

theorem Step.unfailing (h : Step libs settings i s l e s' l') (hd : Durable libs s.toStores)
    (hl : assertion libs s.toStores l) (hn : NoDeadLetters s.toStores) (hu : l.unfailing = true) :
    NoDeadLetters s'.toStores ∧ l'.unfailing = true := by
  cases h with
  | api h => cases h with
    | commit hingest =>
      refine ⟨⟨hn.1, ?_⟩, rfl⟩
      rcases ingestBatch_cases hingest with ⟨-, -, rfl⟩ | ⟨_, _, _, _, -, -, -, -, -, -, rfl⟩ <;>
        exact hn.2
    | _ => exact ⟨hn, rfl⟩
  | relay h => cases h <;> exact ⟨hn, rfl⟩
  | worker h => cases h with
    | advance _ ha =>
      obtain ⟨hu', hn'⟩ := advance_unfailing hd hl.2.1 hl.2.2 hu hn ha
      exact ⟨hn', hu'⟩
    | _ => exact ⟨hn, rfl⟩
  | reader h =>
    obtain ⟨hdb, -, hdead, -⟩ := h.frame
    refine ⟨⟨hdead.trans hn.1, by rw [hdb]; exact hn.2⟩, ?_⟩
    cases h <;> rfl
  | expire => exact ⟨hn, hu⟩
  | stop => exact ⟨hn, rfl⟩

theorem no_dead_letters {t : List (ι × Event)} {c : Config ι (Shared ι) Local}
    (h : Run (pipeline libs settings) t c) :
    c.shared.deadLetters = [] ∧ c.shared.db.deadLetters.rows = [] := by
  refine (h.outline (I := fun _ s => NoDeadLetters s.toStores)
    (L := fun _ _ _ l => l.unfailing = true) ⟨rfl, rfl⟩ ?_ ?_ ?_).1
  · rintro i l rfl; rfl
  · intro t s loc i e s' l' hrun hn hu hs
    obtain ⟨hd, hl⟩ := durable_run hrun
    exact Step.unfailing hs hd (hl i) hn hu
  · exact fun _ _ _ _ _ _ _ _ _ _ _ _ _ hj => hj

theorem Step.ingested {batch : TelemetryBatch} {eventId : UUID} {r : IngestionResponse}
    (h : Step libs settings i s l (.ingested batch eventId r) s' l') :
    ∃ now createdAt correlationId,
      ingestBatch now createdAt eventId correlationId batch s.db = .ok (s'.db, r) := by
  cases h with
  | api h => cases h with
    | commit hingest => exact ⟨_, _, _, hingest⟩
  | relay h => cases h
  | worker h => cases h
  | reader h => cases h

end

end FleetPulse
