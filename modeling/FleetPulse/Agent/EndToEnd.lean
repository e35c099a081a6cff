import FleetPulse.Agent.Delivery

/-! The batches of the agent on the other side of the stream: what has left the file is stored, its
    event is published and processed and never dead-lettered, and the worker handles it under the id
    that the agent sent along.

    The id goes through four hands: the agent puts the batch id into `X-Request-ID`, the middleware
    takes it for the correlation id, `ingest_batch` writes that into the payload of the outbox row, and
    `handle_message` sets it again from the decoded event. -/

namespace FleetPulse
open Values Interleaving

/-- `propagated_id[:128]`, if the payload has a `correlation_id` that is not empty. -/
def propagatedId (event : QueueEvent) : Option Json.CodePoints :=
  match event.payload.lookup (Json.codePoints "correlation_id") with
  | some (c :: cs) => some ((c :: cs).take 128)
  | _ => none

/-- The correlation id under which `handle_message` processes an entry. -/
def handlingId (libs : Libraries) (messageId : String) (fields : Fields) : Json.CodePoints :=
  let received := Json.codePoints ((fields.lookup "event_id").getD messageId)
  match decodeEvent libs fields with
  | .ok event => (propagatedId event).getD received
  | .error _ => received

theorem propagatedId_eventPayload {row : OutboxEventRecord} {batch : TelemetryBatch}
    (hpayload : row.payload = eventPayload batch batch.batchId.str) :
    propagatedId (queueEvent row) = some (Json.codePoints batch.batchId.str) := by
  have hlookup : (queueEvent row).payload.lookup (Json.codePoints "correlation_id") =
      some (Json.codePoints batch.batchId.str) := by
    simp [queueEvent, hpayload, eventPayload, List.lookup_cons, Json.codePoints]
  have hlength : (Json.codePoints batch.batchId.str).length = 36 := by
    simp [Json.codePoints, UUID.str, UUID.hyphenate, batch.batchId.length_eq]
  rw [propagatedId, hlookup]
  cases hid : Json.codePoints batch.batchId.str with
  | nil => rw [hid] at hlength; cases hlength
  | cons c cs =>
    rw [hid] at hlength
    simp only [List.take_of_length_le (by omega : (c :: cs).length ≤ 128)]

section
variable {ι : Type} [DecidableEq ι] {libs : Libraries} {settings : AgentSettings}
  {textBytes : Payload → ℕ} {workers : ι → WorkerSettings} {w : World ι} {batch : TelemetryBatch}

omit [DecidableEq ι] in
/-- The outbox row of a batch of the agent carries the batch id as its correlation id. -/
theorem Transports.eventPayload {row : OutboxEventRecord} (h : Transports w) (hids : w.DistinctIds)
    (hbuilt : batch ∈ w.built) (hrow : InOutbox w.config.shared.toStores row)
    (haggregate : row.aggregateId = batch.batchId.str) :
    row.payload = FleetPulse.eventPayload batch batch.batchId.str := by
  obtain ⟨batch', createdAt, correlationId, hevent, hfrom⟩ := h.outbox _ hrow
  have hid : row.aggregateId = batch'.batchId.str := congrArg OutboxEventRecord.aggregateId hevent
  have hsame : batch'.batchId = batch.batchId := UUID.str_injective (hid.symm.trans haggregate)
  rcases hfrom with hforeign | ⟨hbuilt', rfl⟩
  · exact absurd (hsame ▸ hforeign) (hids.foreign batch hbuilt)
  · obtain rfl := hids.eq_of_batchId hbuilt' hbuilt hsame
    exact congrArg OutboxEventRecord.payload hevent

/-- The entry of such a row is handled under the batch id. -/
theorem handlingId_publishFields {row : OutboxEventRecord}
    (hpayload : row.payload = eventPayload batch batch.batchId.str) (messageId : String) :
    handlingId libs messageId (publishFields row) = Json.codePoints batch.batchId.str := by
  have hkeys : (row.payload.map Prod.fst).Nodup := by simp [hpayload, eventPayload]
  simp only [handlingId, decodeEvent_publishFields libs hkeys, propagatedId_eventPayload hpayload,
    Option.getD_some]

/-- PROCESSED, NEVER DEAD-LETTERED: a batch that has left the file without an eviction has one outbox
    event; once that is published its entry is in the stream, and once an entry of it is acknowledged
    the event was processed. -/
theorem spooled_batch_processed (h : DeliveryRun libs settings textBytes workers w)
    (hids : w.DistinctIds) (hspooled : batch ∈ w.spooled)
    (hsent : batch.batchId.str ∉ w.spool.durable.keys) (hkept : batch.batchId.str ∉ w.evicted) :
    w.config.shared.deadLetters = [] ∧
    ∃ event, w.config.shared.db.outboxEvents.rows.filter
        (fun e => e.aggregateId = batch.batchId.str) = [event] ∧
      (event.publishedAt ≠ none → publishFields event ∈ w.config.shared.stream.entries) ∧
      ∀ k, w.config.shared.stream.entries[k]? = some (publishFields event) →
        w.config.shared.stream.Acked k →
        event.eventId ∈ w.config.shared.db.processedEvents.keys := by
  obtain ⟨t, hrun⟩ := h.run_pipeline
  obtain ⟨hdurable, -⟩ := durable_run hrun
  obtain ⟨hnone, -⟩ := no_dead_letters hrun
  obtain ⟨htransports, hspools⟩ := h.keeps hids
  have hbuilt := hspools.spooled batch hspooled
  have hstored : w.Stored batch.batchId := by
    rcases hspools.kept batch hspooled with ⟨row, hrow, hof⟩ | hevicted | hstored
    · exact absurd (hof.1 ▸ Table.key_mem_keys hrow) hsent
    · exact absurd hevicted hkept
    · exact hstored
  obtain ⟨-, event, -, -, hone⟩ := h.stored hids hbuilt hstored
  have hevent : event ∈ w.config.shared.db.outboxEvents.rows ∧
      event.aggregateId = batch.batchId.str := by
    have hmem : event ∈ [event] := List.mem_singleton_self event
    rw [← hone] at hmem
    simpa using hmem
  have hpayload := htransports.eventPayload hids hbuilt (List.mem_map_of_mem hevent.1) hevent.2
  refine ⟨hnone, event, hone, hdurable.published event hevent.1, fun k hentry hacked => ?_⟩
  rcases hdurable.settled k hacked with ⟨fields, event', hentry', hdecode, hprocessed⟩ |
    ⟨-, letter, hletter, -⟩
  · obtain rfl := Option.some.inj (hentry.symm.trans hentry')
    rw [decodeEvent_publishFields libs (by simp [hpayload, eventPayload])] at hdecode
    cases hdecode
    exact hprocessed
  · rw [hnone] at hletter
    cases hletter

theorem spooled_batch_processed_calm : ∃ w event,
    DeliveryRun .canonical plainSettings plainBytes (fun _ : Bool => smallSettings) w ∧
    w.config.shared.stream.entries[0]? = some (publishFields event) ∧
    event.eventId ∈ w.config.shared.db.processedEvents.keys := by
  obtain ⟨w, event, hrun, hids, -, hspooled, hevicted, hsent, hrows, hentry, hacked, haggregate⟩ :=
    deliveryRun_processed
  obtain ⟨-, event', hone, -, hprocessed⟩ := @spooled_batch_processed _ _ _ _ _ _ _ calmBatch hrun
    hids (by simp [hspooled]) (by simp [hsent]) (by simp [hevicted])
  obtain rfl : event = event' := by simpa [hrows, haggregate] using hone
  exact ⟨w, event, hrun, hentry, hprocessed 0 hentry hacked⟩

/-- ONE ID ALL THE WAY: a worker handles every stream entry for a batch of the agent under the batch
    id. -/
theorem correlation_reaches_worker {k : ℕ} {fields : Fields}
    (h : DeliveryRun libs settings textBytes workers w) (hids : w.DistinctIds)
    (hbuilt : batch ∈ w.built) (hentry : w.config.shared.stream.entries[k]? = some fields)
    (haggregate : fields.lookup "aggregate_id" = some batch.batchId.str) (messageId : String) :
    handlingId libs messageId fields = Json.codePoints batch.batchId.str := by
  obtain ⟨t, hrun⟩ := h.run_pipeline
  obtain ⟨hdurable, -⟩ := durable_run hrun
  obtain ⟨htransports, -⟩ := h.keeps hids
  obtain ⟨row, hrow, rfl⟩ := hdurable.fed fields (List.mem_of_getElem? hentry)
  have hid : row.aggregateId = batch.batchId.str := by
    simpa [publishFields, List.lookup_cons] using haggregate
  exact handlingId_publishFields (htransports.eventPayload hids hbuilt hrow hid) messageId

end

theorem correlation_reaches_worker_calm : ∃ w fields,
    DeliveryRun .canonical plainSettings plainBytes (fun _ : Bool => smallSettings) w ∧
    w.config.shared.stream.entries[0]? = some fields ∧
    handlingId .canonical "0-1" fields = Json.codePoints calmBatch.batchId.str := by
  obtain ⟨w, event, hrun, hids, hbuilt, -, -, -, -, hentry, -, haggregate⟩ := deliveryRun_processed
  refine ⟨w, _, hrun, hentry, correlation_reaches_worker hrun hids (by simp [hbuilt]) hentry ?_ _⟩
  simpa [publishFields, List.lookup_cons] using haggregate

end FleetPulse
