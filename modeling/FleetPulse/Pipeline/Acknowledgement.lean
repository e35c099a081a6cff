import FleetPulse.Pipeline.Growth
import FleetPulse.Pipeline.Scheduler

/-! What an acknowledgement of the API means.

    A request is answered only after its transaction, so a row with its batch id is there and stays.
    The id is the idempotency key: the row has the content of the request that was accepted under it
    first, and a later request with that id is answered `duplicate` whatever it carries. -/

namespace FleetPulse
open Values Interleaving

variable {ι : Type}

/-- The row was inserted for the accepted request with the batch `stored`. -/
structure StoredBy (t : List (ι × Event)) (row : TelemetryBatchRecord) (stored : TelemetryBatch) :
    Prop where
  accepted : ∃ j eventId requestId,
    (j, Event.ingested stored eventId ⟨stored.batchId, .accepted, requestId⟩) ∈ t
  batchId : row.batchId = stored.batchId
  agentId : row.agentId = stored.agentId
  payload : row.payload = stored.dump

theorem StoredBy.mono {t : List (ι × Event)} {row : TelemetryBatchRecord} {stored : TelemetryBatch}
    (h : StoredBy t row stored) (x : ι × Event) : StoredBy (t ++ [x]) row stored := by
  obtain ⟨j, eventId, requestId, hmem⟩ := h.accepted
  exact { h with accepted := ⟨j, eventId, requestId, List.mem_append_left _ hmem⟩ }

/-- Every row was inserted for some accepted request. -/
def RowsAccepted (t : List (ι × Event)) (db : Database) : Prop :=
  ∀ row ∈ db.telemetryBatches.rows, ∃ stored, StoredBy t row stored

/-- What a request that is about to be answered knows. -/
def AnswerBacked (t : List (ι × Event)) (db : Database) : Local → Prop
  | .answering batch r => r.batchId = batch.batchId ∧ ∃ row ∈ db.telemetryBatches.rows,
      row.batchId = batch.batchId ∧ (r.status = .accepted → StoredBy t row batch)
  | _ => True

theorem AnswerBacked.mono {t : List (ι × Event)} {db db' : Database} {l : Local}
    (h : AnswerBacked t db l) (hg : db.telemetryBatches.rows <+: db'.telemetryBatches.rows)
    (x : ι × Event) : AnswerBacked (t ++ [x]) db' l := by
  cases l with
  | answering batch r =>
    obtain ⟨hid, row, hrow, hrid, hacc⟩ := h
    exact ⟨hid, row, hg.subset hrow, hrid, fun ha => (hacc ha).mono x⟩
  | _ => trivial

theorem RowsAccepted.mono {t : List (ι × Event)} {db db' : Database} (h : RowsAccepted t db)
    (hrows : db'.telemetryBatches.rows = db.telemetryBatches.rows) (x : ι × Event) :
    RowsAccepted (t ++ [x]) db' := fun row hr => by
  obtain ⟨stored, hstored⟩ := h row (hrows ▸ hr)
  exact ⟨stored, hstored.mono x⟩

/-- The transaction of a request backs its answer. -/
theorem ingest_backed {t : List (ι × Event)} {i : ι} {now createdAt : Instant} {eventId : UUID}
    {correlationId : String} {batch : TelemetryBatch} {db db' : Database} {r : IngestionResponse}
    (ht : RowsAccepted t db)
    (h : ingestBatch now createdAt eventId correlationId batch db = .ok (db', r)) :
    RowsAccepted (t ++ [(i, .ingested batch eventId r)]) db' ∧
      AnswerBacked (t ++ [(i, .ingested batch eventId r)]) db' (.answering batch r) := by
  rcases ingestBatch_cases h with ⟨hmem, rfl, rfl⟩ | ⟨lo, hi, batches, _, -, rfl, -, -, hrows, -, rfl⟩
  · obtain ⟨row, hrow, hid⟩ := Table.mem_keys.mp hmem
    exact ⟨ht.mono rfl _, rfl, row, hrow, hid, fun hacc => by cases hacc⟩
  · have hnew : StoredBy (t ++ [(i, Event.ingested batch eventId
        ⟨batch.batchId, .accepted, correlationId⟩)]) (batchRecord batch lo hi) batch :=
      ⟨⟨i, eventId, correlationId, List.mem_append_right _ (List.mem_singleton_self _)⟩, rfl, rfl,
        rfl⟩
    refine ⟨fun row hr => ?_, rfl, batchRecord batch lo hi, ?_, rfl, fun _ => hnew⟩
    · simp only [hrows] at hr
      rcases List.mem_append.mp hr with hr | hr
      · obtain ⟨stored, hstored⟩ := ht row hr
        exact ⟨stored, hstored.mono _⟩
      · rw [List.mem_singleton.mp hr]; exact ⟨batch, hnew⟩
    · simp only [hrows]; exact List.mem_append_right _ (List.mem_singleton_self _)

section
variable [DecidableEq ι] {libs : Libraries} {settings : ι → WorkerSettings}

/-- Only `ingest_batch` adds a batch row. -/
theorem Step.telemetryBatches {i : ι} {s s' : Shared ι} {l l' : Local} {e : Event}
    (h : Step libs settings i s l e s' l') :
    (∃ now createdAt eventId correlationId batch r, l = .ingesting now batch correlationId ∧
      e = .ingested batch eventId r ∧ l' = .answering batch r ∧
      ingestBatch now createdAt eventId correlationId batch s.db = .ok (s'.db, r)) ∨
    (s'.db.telemetryBatches = s.db.telemetryBatches ∧
      ∀ batch r, l' = .answering batch r → l = .answering batch r) := by
  cases h with
  | api h => cases h with
    | commit hingest => exact Or.inl ⟨_, _, _, _, _, _, rfl, rfl, rfl, hingest⟩
    | _ => exact Or.inr ⟨rfl, fun _ _ h => by cases h⟩
  | relay h => cases h <;> exact Or.inr ⟨rfl, fun _ _ h => by cases h⟩
  | worker h => cases h with
    | advance _ ha => exact Or.inr ⟨(advance_frame ha).2.1, fun _ _ h => by cases h⟩
    | _ => exact Or.inr ⟨rfl, fun _ _ h => by cases h⟩
  | reader h =>
    refine Or.inr ⟨by rw [h.frame.1], fun _ _ hl => ?_⟩
    cases h <;> cases hl
  | expire => exact Or.inr ⟨rfl, fun _ _ h => h⟩
  | stop => exact Or.inr ⟨rfl, fun _ _ h => by cases h⟩

theorem acknowledgement_run {t : List (ι × Event)} {c : Config ι (Shared ι) Local}
    (h : Run (pipeline libs settings) t c) :
    RowsAccepted t c.shared.db ∧ ∀ i, AnswerBacked t c.shared.db (c.loc i) := by
  refine h.outline (I := fun t s => RowsAccepted t s.db)
    (L := fun _ t s l => AnswerBacked t s.db l) (fun _ h => by cases h) ?_ ?_ ?_
  · rintro i l rfl; trivial
  · intro t s loc i e s' l' _ ht hl hs
    rcases Step.telemetryBatches hs with
      ⟨now, createdAt, eventId, correlationId, batch, r, -, rfl, rfl, hingest⟩ | ⟨hrows, hanswer⟩
    · exact ingest_backed ht hingest
    · refine ⟨ht.mono (by rw [hrows]) _, ?_⟩
      cases l' with
      | answering batch r =>
        rw [hanswer batch r rfl] at hl
        exact hl.mono (by rw [hrows]) _
      | _ => trivial
  · intro t s loc i e s' l' j _ _ _ hs _ hj
    exact hj.mono (Step.grows hs).telemetryBatches _

theorem Step.answered {i : ι} {s s' : Shared ι} {l l' : Local} {batch : TelemetryBatch}
    {r : IngestionResponse} (h : Step libs settings i s l (.answered batch r) s' l') :
    l = .answering batch r ∧ s' = s := by
  cases h with
  | api h => cases h; exact ⟨rfl, rfl⟩
  | relay h => cases h
  | worker h => cases h
  | reader h => cases h

/-- ACKNOWLEDGED: when a request is answered, a row with its batch id is there and stays as it is;
    its content is that of the request accepted under this id, which is the request just answered
    unless the answer is `duplicate`. -/
theorem acknowledged_batch_stored {t : List (ι × Event)} {c : Config ι (Shared ι) Local} {i : ι}
    {batch : TelemetryBatch} {r : IngestionResponse}
    (h : Run (pipeline libs settings) (t ++ [(i, .answered batch r)]) c) :
    ∃ row stored, row.batchId = batch.batchId ∧ row.agentId = stored.agentId ∧
      row.payload = stored.dump ∧
      (∃ j eventId requestId,
        (j, Event.ingested stored eventId ⟨batch.batchId, .accepted, requestId⟩) ∈ t) ∧
      (r.status = .accepted → stored = batch) ∧
      ∀ t' c', Steps (pipeline libs settings) c t' c' →
        row ∈ c'.shared.db.telemetryBatches.rows := by
  obtain ⟨s, loc, s', l', hrun, hstep, rfl⟩ := h.exists_before
  obtain ⟨ht, hl⟩ := acknowledgement_run hrun
  obtain ⟨hloc, rfl⟩ := Step.answered hstep
  have hbacked : AnswerBacked t s'.db (loc i) := hl i
  rw [hloc] at hbacked
  obtain ⟨-, row, hrow, hid, hacc⟩ := hbacked
  have hstored : ∃ stored, StoredBy t row stored ∧ (r.status = .accepted → stored = batch) := by
    cases hstatus : r.status with
    | accepted => exact ⟨batch, hacc hstatus, fun _ => rfl⟩
    | duplicate =>
      obtain ⟨stored, hstored⟩ := ht row hrow
      exact ⟨stored, hstored, fun h => by cases h⟩
  obtain ⟨stored, hstored, hsame⟩ := hstored
  obtain ⟨j, eventId, requestId, hmem⟩ := hstored.accepted
  rw [← hstored.batchId, hid] at hmem
  exact ⟨row, stored, hid, hstored.agentId, hstored.payload, ⟨j, eventId, requestId, hmem⟩, hsame,
    fun t' c' hsteps => (steps_grow hsteps).telemetryBatches.subset hrow⟩

end

/-- A request for `olderBatch`, then one for `reusedBatch` under the same id: both are answered. -/
def reusedActions : List (Unit × Action) :=
  (ingestActions olderBatch 5 (uniformId 3) ++ ingestActions reusedBatch 6 (uniformId 4)).map
    (fun a => ((), a))

theorem acknowledged_batch_stored_reused :
    ∃ t c r, Run (pipeline Libraries.canonical (fun _ : Unit => smallSettings))
        (t ++ [((), .answered reusedBatch r)]) c ∧ r.status = .duplicate ∧
      ∃ row ∈ c.shared.db.telemetryBatches.rows, row.batchId = reusedBatch.batchId := by
  have hrun : (schedule Libraries.canonical (fun _ : Unit => smallSettings) reusedActions []
      (initial Unit)).any (fun r => decide (r.1.getLast? =
        some ((), .answered reusedBatch ⟨uniformId 1, .duplicate, "request"⟩))) = true := by
    decide +kernel
  obtain ⟨t, c, hrun, hlast⟩ := exists_run hrun
  obtain ⟨t, rfl⟩ := List.getLast?_eq_some_iff.mp (of_decide_eq_true hlast)
  obtain ⟨row, -, hid, -, -, -, -, hrow⟩ := acknowledged_batch_stored hrun
  exact ⟨t, c, _, hrun, rfl, row, hrow [] c (.refl c), hid⟩

/-- The second request is acknowledged, and no row has its agent and its samples. -/
theorem acknowledged_content_not_stored :
    ∃ t c r, Run (pipeline Libraries.canonical (fun _ : Unit => smallSettings))
        (t ++ [((), .answered reusedBatch r)]) c ∧
      ∀ row ∈ c.shared.db.telemetryBatches.rows, row.batchId = reusedBatch.batchId →
        row.agentId ≠ reusedBatch.agentId ∧ row.payload ≠ reusedBatch.dump := by
  have hrun : (schedule Libraries.canonical (fun _ : Unit => smallSettings) reusedActions []
      (initial Unit)).any (fun r => decide (r.1.getLast? =
        some ((), .answered reusedBatch ⟨uniformId 1, .duplicate, "request"⟩) ∧
        ∀ row ∈ r.2.shared.db.telemetryBatches.rows, row.agentId ≠ reusedBatch.agentId ∧
          TelemetryBatch.validate Libraries.canonical row.payload ≠ some reusedBatch)) = true := by
    decide +kernel
  obtain ⟨t, c, hrun, hcheck⟩ := exists_run hrun
  obtain ⟨hlast, hrows⟩ := of_decide_eq_true hcheck
  obtain ⟨t, rfl⟩ := List.getLast?_eq_some_iff.mp hlast
  refine ⟨t, c, _, hrun, fun row hrow _ => ⟨(hrows row hrow).1, fun hpayload => ?_⟩⟩
  have hfinite : reusedBatch.finite = true := by decide +kernel
  exact (hrows row hrow).2 (hpayload ▸ TelemetryBatch.validate_dump _ hfinite)

end FleetPulse
