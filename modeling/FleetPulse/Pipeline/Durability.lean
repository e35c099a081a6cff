import FleetPulse.Pipeline.Growth
import FleetPulse.Pipeline.Scheduler

/-! No acknowledged batch is lost: the invariant that ties the two stores together, and the local
    assertion of every process that keeps it.

    `telemetry_batches` and `outbox_events` grow in step, one commit for both; an entry of the stream
    is always the announcement of an outbox row; a row is marked published only after its entry is
    there; an entry is acknowledged only after its event is processed or dead-lettered in both
    places. Between two of its writes a process remembers, as its assertion, the write that came
    first; other processes never undo it (`Grows`). -/

namespace FleetPulse
open Values Interleaving

/-- The outbox event, as it was inserted, announces the batch of the record. -/
def Announces (event : OutboxEventRecord) (record : TelemetryBatchRecord) : Prop :=
  ∃ batch createdAt correlationId observedStart observedEnd,
    event = outboxEvent createdAt event.eventId correlationId batch ∧
    record = batchRecord batch observedStart observedEnd ∧ storable batch.dump = true

theorem Announces.aggregateId {event : OutboxEventRecord} {record : TelemetryBatchRecord}
    (h : Announces event record) : event.aggregateId = record.batchId.str := by
  obtain ⟨batch, _, _, _, _, hevent, hrecord, -⟩ := h
  rw [hevent, hrecord]; rfl

/-- The entry carries an event that is in `processed_events`. -/
def Processed (libs : Libraries) (s : Stores) (id : ℕ) : Prop :=
  ∃ fields event, s.stream.entries[id]? = some fields ∧ decodeEvent libs fields = .ok event ∧
    event.eventId ∈ s.db.processedEvents.keys

/-- The entry has an entry of the dead-letter stream. -/
def DeadLettered (s : Stores) (id : ℕ) : Prop := ∃ entry ∈ s.deadLetters, entry.sourceId = id

/-- The entry is processed, or dead-lettered in both places. -/
def Settled (libs : Libraries) (s : Stores) (id : ℕ) : Prop :=
  Processed libs s id ∨ (id ∈ s.db.deadLetters.keys ∧ DeadLettered s id)

/-- The row is in the outbox, whatever publication has changed of it. -/
def InOutbox (s : Stores) (row : OutboxEventRecord) : Prop :=
  row.asInserted ∈ s.db.outboxEvents.rows.map OutboxEventRecord.asInserted

/-- The invariant of the stores. -/
structure Durable (libs : Libraries) (s : Stores) : Prop where
  announced : List.Forall₂ Announces
    (s.db.outboxEvents.rows.map OutboxEventRecord.asInserted) s.db.telemetryBatches.rows
  known : ∀ record ∈ s.db.telemetryBatches.rows, record.agentId ∈ s.db.agents.keys
  fed : ∀ fields ∈ s.stream.entries, ∃ row, InOutbox s row ∧ fields = publishFields row
  published : ∀ row ∈ s.db.outboxEvents.rows, row.publishedAt ≠ none →
    publishFields row ∈ s.stream.entries
  settled : ∀ id, s.stream.Acked id → Settled libs s id

/-- What a run of `handle_message` has done so far. -/
def handlingDone (libs : Libraries) (s : Stores) (id : ℕ) (fields : Fields) : Handling → Prop
  | .processing event => decodeEvent libs fields = .ok event
  | .invalidating | .settling => Processed libs s id
  | .recording _ _ => DeadLettered s id
  | .discarding => id ∈ s.db.deadLetters.keys ∧ DeadLettered s id
  | _ => True

/-- The assertion of a process. -/
def assertion (libs : Libraries) (s : Stores) : Local → Prop
  | .locking _ rows => ∀ row ∈ rows, InOutbox s row
  | .publishing rows added => (∀ row ∈ rows, InOutbox s row) ∧
      ∀ row ∈ added, InOutbox s row ∧ publishFields row ∈ s.stream.entries
  | .polling _ queue => ∀ p ∈ queue, s.stream.entries[p.1]? = some p.2
  | .handling _ queue id fields h => (∀ p ∈ queue, s.stream.entries[p.1]? = some p.2) ∧
      s.stream.entries[id]? = some fields ∧ handlingDone libs s id fields h
  | _ => True

/-! ### Non-interference -/

section
variable {libs : Libraries} {s s' : Stores}

theorem Processed.mono (hg : Grows s s') {id : ℕ} (h : Processed libs s id) :
    Processed libs s' id := by
  obtain ⟨fields, event, hentry, hdecode, hid⟩ := h
  exact ⟨fields, event, hg.getElem? hentry, hdecode, hg.processed hid⟩

theorem DeadLettered.mono (hg : Grows s s') {id : ℕ} (h : DeadLettered s id) :
    DeadLettered s' id := by
  obtain ⟨entry, hentry, hid⟩ := h
  exact ⟨entry, hg.deadLetters.subset hentry, hid⟩

theorem Settled.mono (hg : Grows s s') {id : ℕ} (h : Settled libs s id) : Settled libs s' id :=
  h.imp (Processed.mono hg) (fun h => ⟨Table.keys_subset_of_prefix hg.deadLetterRows h.1,
    h.2.mono hg⟩)

theorem InOutbox.mono (hg : Grows s s') {row : OutboxEventRecord} (h : InOutbox s row) :
    InOutbox s' row := hg.outboxEvents.subset h

theorem handlingDone_mono (hg : Grows s s') {id : ℕ} {fields : Fields} {h : Handling}
    (hd : handlingDone libs s id fields h) : handlingDone libs s' id fields h := by
  cases h with
  | invalidating => exact Processed.mono hg hd
  | settling => exact Processed.mono hg hd
  | recording _ _ => exact DeadLettered.mono hg hd
  | discarding => exact ⟨Table.keys_subset_of_prefix hg.deadLetterRows hd.1, hd.2.mono hg⟩
  | _ => exact hd

/-- No process can falsify the assertion of another one. -/
theorem assertion_mono (hg : Grows s s') {l : Local} (h : assertion libs s l) :
    assertion libs s' l := by
  cases l with
  | locking candidates rows => exact fun row hrow => (h row hrow).mono hg
  | publishing rows added =>
    exact ⟨fun row hrow => (h.1 row hrow).mono hg,
      fun row hrow => ⟨(h.2 row hrow).1.mono hg, hg.entries.subset (h.2 row hrow).2⟩⟩
  | polling next queue => exact fun p hp => hg.getElem? (h p hp)
  | handling next queue id fields hd =>
    exact ⟨fun p hp => hg.getElem? (h.1 p hp), hg.getElem? h.2.1, handlingDone_mono hg h.2.2⟩
  | _ => trivial

/-! ### The invariant -/

/-- The rows and the entries stay, and what is newly acknowledged is settled. -/
theorem Durable.of_grows (hd : Durable libs s) (hg : Grows s s')
    (hbatches : s'.db.telemetryBatches = s.db.telemetryBatches)
    (houtbox : s'.db.outboxEvents = s.db.outboxEvents)
    (hentries : s'.stream.entries = s.stream.entries)
    (hacked : ∀ id, s'.stream.Acked id → s.stream.Acked id ∨ Settled libs s' id) :
    Durable libs s' where
  announced := by rw [hbatches, houtbox]; exact hd.announced
  known := fun record hr => hg.agents (hd.known record (hbatches ▸ hr))
  fed := fun fields hf => by
    obtain ⟨row, hrow, hfields⟩ := hd.fed fields (hentries ▸ hf)
    exact ⟨row, hrow.mono hg, hfields⟩
  published := fun row hrow hp => by
    rw [hentries]; exact hd.published row (houtbox ▸ hrow) hp
  settled := fun id hid => (hacked id hid).elim (fun h => (hd.settled id h).mono hg) (fun h => h)

theorem Durable.init (ι : Type) : Durable libs (Shared.init ι).toStores where
  announced := .nil
  known := fun _ h => by cases h
  fed := fun _ h => by cases h
  published := fun _ h => by cases h
  settled := fun id h => absurd h.1 (Nat.not_lt_zero id)

/-- Two rows with one event id are one row as inserted. -/
theorem InOutbox.eq_of_eventId {row row' : OutboxEventRecord} (h : InOutbox s row)
    (h' : InOutbox s row') (hid : row.eventId = row'.eventId) : row.asInserted = row'.asInserted := by
  obtain ⟨r, hr, hrow⟩ := List.mem_map.mp h
  obtain ⟨r', hr', hrow'⟩ := List.mem_map.mp h'
  have hkey : r.eventId = r'.eventId := by
    rw [← r.asInserted_eventId, hrow, ← r'.asInserted_eventId, hrow']; exact hid
  rw [← hrow, ← hrow', s.db.outboxEvents.eq_of_key_eq hr hr' hkey]

theorem Durable.ingest {now createdAt : Instant} {eventId : UUID} {correlationId : String}
    {batch : TelemetryBatch} {db : Database} {r : IngestionResponse} (hd : Durable libs s)
    (h : ingestBatch now createdAt eventId correlationId batch s.db = .ok (db, r)) :
    Durable libs { s with db := db } := by
  have hg := ingestBatch_grows h
  rcases ingestBatch_cases h with ⟨-, -, rfl⟩ |
    ⟨lo, hi, batches, outbox, -, -, hstorable, -, hrows, hout, rfl⟩
  · exact hd.of_grows hg rfl rfl rfl (fun _ => Or.inl)
  · obtain ⟨-, hout⟩ := Table.insert_eq_some hout
    refine ⟨?_, ?_, ?_, ?_, fun id hid => (hd.settled id hid).mono hg⟩
    · simp only [hrows, hout, List.map_append]
      exact List.rel_append hd.announced
        (.cons ⟨batch, createdAt, correlationId, lo, hi, rfl, rfl, hstorable⟩ .nil)
    · intro record hr
      simp only [hrows] at hr
      rcases List.mem_append.mp hr with hr | hr
      · exact hg.agents (hd.known record hr)
      · rw [List.mem_singleton.mp hr]; exact agentId_mem_upsertAgent now batch s.db.agents
    · intro fields hf
      obtain ⟨row, hrow, hfields⟩ := hd.fed fields hf
      exact ⟨row, hrow.mono hg, hfields⟩
    · intro row hrow hp
      simp only [hout] at hrow
      rcases List.mem_append.mp hrow with hrow | hrow
      · exact hd.published row hrow hp
      · rw [List.mem_singleton.mp hrow] at hp; exact absurd rfl hp

theorem Durable.add {row : OutboxEventRecord} (hd : Durable libs s) (hrow : InOutbox s row) :
    Durable libs { s with stream := s.stream.add (publishFields row) } := by
  refine ⟨hd.announced, hd.known, ?_, ?_, fun id hid => (hd.settled id hid).mono (add_grows _)⟩
  · intro fields hf
    rcases List.mem_append.mp hf with hf | hf
    · exact hd.fed fields hf
    · exact ⟨row, hrow, List.mem_singleton.mp hf⟩
  · intro row' hrow' hp
    exact List.mem_append_left _ (hd.published row' hrow' hp)

/-- The relay's commit marks only rows whose entries are in the stream. -/
theorem Durable.commit {added : List OutboxEventRecord} (hd : Durable libs s)
    (hadded : ∀ row ∈ added, InOutbox s row ∧ publishFields row ∈ s.stream.entries) :
    Durable libs
      { s with db := { s.db with outboxEvents := commitPublished added s.db.outboxEvents } } := by
  have hmap := asInserted_commitPublished added s.db.outboxEvents
  refine ⟨?_, hd.known, ?_, ?_,
    fun id hid => (hd.settled id hid).mono (commitPublished_grows added)⟩
  · simp only [hmap]; exact hd.announced
  · intro fields hf
    obtain ⟨row, hrow, hfields⟩ := hd.fed fields hf
    refine ⟨row, ?_, hfields⟩
    change _ ∈ (commitPublished added s.db.outboxEvents).rows.map _
    rw [hmap]; exact hrow
  · intro row hrow hp
    have hin : InOutbox s row := by
      rw [InOutbox, ← hmap]; exact List.mem_map_of_mem hrow
    rcases published_commitPublished hrow hp with ⟨event, hevent, hid⟩ | hrow
    · rw [← publishFields_asInserted, hin.eq_of_eventId (hadded event hevent).1 hid,
        publishFields_asInserted]
      exact (hadded event hevent).2
    · exact hd.published row hrow hp

/-- A step of `handle_message` acknowledges only what is settled, and leaves behind what it has
    done. -/
theorem advance_settles {settings : WorkerSettings} {id : ℕ} {fields : Fields} {h h' : Handling}
    (hsettled : ∀ id', s.stream.Acked id' → Settled libs s id')
    (hentry : s.stream.entries[id]? = some fields) (hdone : handlingDone libs s id fields h)
    (ha : advance libs settings id fields h s = .ok (h', s')) :
    (∀ id', s'.stream.Acked id' → Settled libs s' id') ∧ handlingDone libs s' id fields h' := by
  have hg := advance_grows ha
  have hcases := advance_cases ha
  cases h with
  | received =>
    obtain ⟨rfl, ⟨event, hdecode, rfl⟩ | ⟨e, -, -, rfl⟩⟩ := hcases
    · exact ⟨hsettled, hdecode⟩
    · exact ⟨hsettled, trivial⟩
  | processing event =>
    rcases hcases with ⟨db, hprocess, rfl, rfl⟩ | ⟨e, -, -, rfl, rfl⟩
    · refine ⟨fun id' hid' => (hsettled id' hid').mono hg, fields, event, hentry, hdone, ?_⟩
      rcases processEvent_cases hprocess with
        ⟨hmem, rfl⟩ | ⟨batch, processed, incidents, -, -, -, hrows, -, rfl⟩
      · exact hmem
      · simp [Table.keys, hrows]
    · exact ⟨hsettled, trivial⟩
  | invalidating =>
    obtain ⟨rfl, rfl⟩ := hcases
    exact ⟨fun id' hid' => (hsettled id' hid').mono hg, Processed.mono hg hdone⟩
  | settling =>
    obtain ⟨rfl, rfl⟩ := hcases
    refine ⟨fun id' hid' => ?_, trivial⟩
    rcases ConsumerGroup.acked_ack.mp hid' with hid' | ⟨rfl, -⟩
    · exact (hsettled id' hid').mono hg
    · exact Or.inl (Processed.mono hg hdone)
  | failed error =>
    obtain ⟨rfl, ⟨-, rfl⟩ | ⟨-, rfl⟩⟩ := hcases <;> exact ⟨hsettled, trivial⟩
  | deadLettering error attempts =>
    obtain ⟨rfl, rfl⟩ := hcases
    exact ⟨fun id' hid' => (hsettled id' hid').mono hg, _,
      List.mem_append_right _ (List.mem_singleton_self _), rfl⟩
  | recording error attempts =>
    obtain ⟨-, rfl, rfl⟩ := hcases
    exact ⟨fun id' hid' => (hsettled id' hid').mono hg,
      Table.key_mem_insertOrIgnore _ (deadLetterRecord id fields error attempts),
      DeadLettered.mono hg hdone⟩
  | discarding =>
    obtain ⟨rfl, rfl⟩ := hcases
    refine ⟨fun id' hid' => ?_, trivial⟩
    rcases ConsumerGroup.acked_ack.mp hid' with hid' | ⟨rfl, -⟩
    · exact (hsettled id' hid').mono hg
    · exact Or.inr hdone
  | returned =>
    obtain ⟨rfl, rfl⟩ := hcases
    exact ⟨hsettled, trivial⟩

end

/-! ### Runs -/

theorem mem_delivered {stream : ConsumerGroup Fields} {ids : List ℕ} {p : ℕ × Fields}
    (h : p ∈ delivered stream ids) : stream.entries[p.1]? = some p.2 := by
  obtain ⟨id, -, hid⟩ := List.mem_filterMap.mp h
  obtain ⟨fields, hfields, rfl⟩ := Option.map_eq_some_iff.mp hid
  exact hfields

section
variable {ι : Type} [DecidableEq ι] {libs : Libraries} {settings : ι → WorkerSettings}
  {s s' : Shared ι} {l l' : Local} {e : Event} {i : ι}

theorem RelayStep.durable (h : RelayStep i s l e s' l') (hd : Durable libs s.toStores)
    (hl : assertion libs s.toStores l) :
    Durable libs s'.toStores ∧ assertion libs s'.toStores l' := by
  cases h with
  | select _ => exact ⟨hd, fun _ h => by cases h⟩
  | lock hlen hfree hfind hrow =>
    refine ⟨hd, fun row hmem => ?_⟩
    rcases List.mem_append.mp hmem with hmem | hmem
    · exact hl row hmem
    · rw [List.mem_singleton.mp hmem]
      exact List.mem_map_of_mem (Table.mem_of_find? hfind)
  | skip => exact ⟨hd, hl⟩
  | opened => exact ⟨hd, hl, fun _ h => by cases h⟩
  | add row rows added now =>
    obtain ⟨hrows, hadded⟩ := hl
    have hrow := hrows row (List.mem_cons_self ..)
    have hg : Grows s.toStores { s.toStores with stream := s.stream.add (publishFields row) } :=
      add_grows _
    refine ⟨hd.add hrow, fun r hr => (hrows r (List.mem_cons_of_mem _ hr)).mono hg, fun r hr => ?_⟩
    rcases List.mem_append.mp hr with hr | hr
    · exact ⟨(hadded r hr).1.mono hg, hg.entries.subset (hadded r hr).2⟩
    · rw [List.mem_singleton.mp hr]
      exact ⟨hrow.mono hg, List.mem_append_right _ (List.mem_singleton_self _)⟩
  | commit added => exact ⟨hd.commit hl.2, trivial⟩
  | rollbackLocking => exact ⟨hd, trivial⟩
  | rollback => exact ⟨hd, trivial⟩

omit [DecidableEq ι] in
/-- A step of a worker acknowledges only what is settled. -/
theorem WorkerStep.settles (h : WorkerStep libs (settings i) s l e s' l')
    (hsettled : ∀ id, s.stream.Acked id → Settled libs s.toStores id)
    (hl : assertion libs s.toStores l) :
    (∀ id, s'.stream.Acked id → Settled libs s'.toStores id) ∧ assertion libs s'.toStores l' := by
  cases h with
  | start | measure => exact ⟨hsettled, fun _ h => by cases h⟩
  | claim idle =>
    exact ⟨fun id hid => (hsettled id (ConsumerGroup.acked_autoclaim.mp hid)).mono
      (Grows.of_eq rfl rfl rfl), fun p hp => mem_delivered hp⟩
  | read =>
    exact ⟨fun id hid => (hsettled id (ConsumerGroup.acked_readGroup.mp hid)).mono
      (Grows.of_eq rfl rfl rfl), fun p hp => mem_delivered hp⟩
  | take next id fields queue =>
    exact ⟨hsettled, fun p hp => hl p (List.mem_cons_of_mem _ hp), hl _ (List.mem_cons_self ..),
      trivial⟩
  | advance hne ha =>
    obtain ⟨hqueue, hentry, hdone⟩ := hl
    have hg := advance_grows ha
    obtain ⟨hsettled', hdone'⟩ := advance_settles hsettled hentry hdone ha
    exact ⟨hsettled', fun p hp => hg.getElem? (hqueue p hp), hg.getElem? hentry, hdone'⟩
  | finish => exact ⟨hsettled, hl.1⟩

omit [DecidableEq ι] in
/-- A worker touches nothing that the API and the relay write. -/
theorem WorkerStep.frame (h : WorkerStep libs (settings i) s l e s' l') :
    Grows s.toStores s'.toStores ∧ s'.db.telemetryBatches = s.db.telemetryBatches ∧
      s'.db.outboxEvents = s.db.outboxEvents ∧ s'.stream.entries = s.stream.entries := by
  cases h with
  | advance _ ha => exact ⟨advance_grows ha, (advance_frame ha).2⟩
  | _ => exact ⟨Grows.of_eq rfl rfl rfl, rfl, rfl, rfl⟩

omit [DecidableEq ι] in
theorem WorkerStep.durable (h : WorkerStep libs (settings i) s l e s' l')
    (hd : Durable libs s.toStores) (hl : assertion libs s.toStores l) :
    Durable libs s'.toStores ∧ assertion libs s'.toStores l' := by
  obtain ⟨hg, hbatches, houtbox, hentries⟩ := h.frame
  obtain ⟨hsettled, hl'⟩ := h.settles hd.settled hl
  exact ⟨hd.of_grows hg hbatches houtbox hentries (fun id hid => Or.inr (hsettled id hid)), hl'⟩

/-- Every step keeps the invariant and gives its process the next assertion. -/
theorem Step.durable (h : Step libs settings i s l e s' l') (hd : Durable libs s.toStores)
    (hl : assertion libs s.toStores l) :
    Durable libs s'.toStores ∧ assertion libs s'.toStores l' := by
  cases h with
  | api h => cases h with
    | commit hingest => exact ⟨hd.ingest hingest, trivial⟩
    | _ => exact ⟨hd, trivial⟩
  | relay h => exact h.durable hd hl
  | worker h => exact h.durable hd hl
  | reader h =>
    obtain ⟨hdb, hstream, hdead, -⟩ := h.frame
    refine ⟨hd.of_grows (Grows.of_eq hdb (by rw [hstream]) hdead) (by rw [hdb]) (by rw [hdb])
      (by rw [hstream]) (fun id hid => Or.inl (hstream ▸ hid)), ?_⟩
    cases h <;> trivial
  | expire =>
    have hg : Grows s.toStores { s.toStores with cache := none } := Grows.of_eq rfl rfl rfl
    exact ⟨hd.of_grows hg rfl rfl rfl (fun _ => Or.inl), assertion_mono hg hl⟩
  | stop => exact ⟨hd, trivial⟩

/-- DURABLE: the invariant holds, and every process is where its assertion says, in every reachable
    state. -/
theorem durable_run {t : List (ι × Event)} {c : Config ι (Shared ι) Local}
    (h : Run (pipeline libs settings) t c) :
    Durable libs c.shared.toStores ∧ ∀ i, assertion libs c.shared.toStores (c.loc i) := by
  refine h.outline (I := fun _ s => Durable libs s.toStores)
    (L := fun _ _ s l => assertion libs s.toStores l) (Durable.init ι) ?_ ?_ ?_
  · rintro i l rfl; trivial
  · exact fun t s loc i e s' l' _ hd hl hs => Step.durable hs hd hl
  · exact fun t s loc i e s' l' j _ _ _ hs _ hj => assertion_mono (Step.grows hs) hj

/-! ### Locks -/

/-- Only the process that takes a step gains a lock. -/
theorem Step.lock_mem (h : Step libs settings i s l e s' l') {lock : UUID × ι}
    (hlock : lock ∈ s'.locks) : lock ∈ s.locks ∨ lock.2 = i := by
  cases h with
  | api h => cases h <;> exact Or.inl hlock
  | relay h => cases h with
    | lock => exact (List.mem_cons.mp hlock).symm.imp_right (fun h => by rw [h])
    | commit | rollbackLocking | rollback => exact Or.inl (List.mem_of_mem_filter hlock)
    | _ => exact Or.inl hlock
  | worker h => cases h <;> exact Or.inl hlock
  | reader h => rw [h.frame.2.2.2] at hlock; exact Or.inl hlock
  | expire => exact Or.inl hlock
  | stop => exact Or.inl hlock

/-- A process that holds a lock after its step has an open transaction. -/
theorem Step.own_lock (h : Step libs settings i s l e s' l')
    (hl : ∀ lock ∈ s.locks, lock.2 = i → l.inTransaction = true) :
    ∀ lock ∈ s'.locks, lock.2 = i → l'.inTransaction = true := by
  cases h with
  | api h => cases h <;> exact fun lock hm hi => absurd (hl lock hm hi) Bool.false_ne_true
  | relay h => cases h with
    | select => exact fun lock hm hi => absurd (hl lock hm hi) Bool.false_ne_true
    | commit | rollbackLocking | rollback =>
      exact fun lock hm hi => absurd hi (of_decide_eq_true (List.mem_filter.mp hm).2)
    | _ => exact fun _ _ _ => rfl
  | worker h => cases h <;> exact fun lock hm hi => absurd (hl lock hm hi) Bool.false_ne_true
  | reader h =>
    rw [h.frame.2.2.2]
    cases h <;> exact fun lock hm hi => absurd (hl lock hm hi) Bool.false_ne_true
  | expire => exact hl
  | stop hopen =>
    exact fun lock hm hi => absurd (hl lock hm hi) (Bool.eq_false_iff.mp hopen)

/-- Every row lock belongs to a process with an open relay transaction. -/
theorem locks_open {t : List (ι × Event)} {c : Config ι (Shared ι) Local}
    (h : Run (pipeline libs settings) t c) :
    ∀ lock ∈ c.shared.locks, (c.loc lock.2).inTransaction = true := by
  have hall := h.outline (I := fun _ _ => True)
    (L := fun i _ s l => ∀ lock ∈ s.locks, lock.2 = i → l.inTransaction = true) trivial
    (fun _ _ _ _ hlock => by cases hlock)
    (fun t s loc i e s' l' _ _ hl hs => ⟨trivial, Step.own_lock hs hl⟩) ?_
  · exact fun lock hlock => hall.2 lock.2 lock hlock rfl
  · intro t s loc i e s' l' j _ _ _ hs hne hj lock hm hi
    exact hj lock ((Step.lock_mem hs hm).resolve_right (fun h => hne (hi ▸ h))) hi

/-! ### No acknowledged batch is lost -/

/-- The next `publish_once` can select the row: it is not published, and at most an open relay
    transaction has it locked. -/
def Selectable (c : Config ι (Shared ι) Local) (event : OutboxEventRecord) : Prop :=
  event ∈ unpublished c.shared.db ∧
    ∀ lock ∈ c.shared.locks, lock.1 = event.eventId → (c.loc lock.2).inTransaction = true

/-- Each stored batch has its outbox event, and no second one. -/
theorem Durable.outbox_unique {s : Stores} (hd : Durable libs s) {record : TelemetryBatchRecord}
    (hr : record ∈ s.db.telemetryBatches.rows) : ∃ event ∈ s.db.outboxEvents.rows,
      event.aggregateId = record.batchId.str ∧ ∀ event' ∈ s.db.outboxEvents.rows,
        event'.aggregateId = record.batchId.str → event' = event := by
  have hids : s.db.outboxEvents.rows.map OutboxEventRecord.aggregateId =
      s.db.telemetryBatches.rows.map (fun r => r.batchId.str) := by
    have h := List.rel_map (P := Eq) (fun _ _ ha => Announces.aggregateId ha) hd.announced
    rw [List.forall₂_eq_eq_eq, List.map_map] at h
    exact h
  have hnodup : (s.db.outboxEvents.rows.map OutboxEventRecord.aggregateId).Nodup := by
    have h := s.db.telemetryBatches.nodup.map UUID.str_injective
    rw [hids]; rwa [List.map_map] at h
  have hmem : record.batchId.str ∈ s.db.outboxEvents.rows.map OutboxEventRecord.aggregateId := by
    rw [hids]; exact List.mem_map_of_mem hr
  obtain ⟨event, hevent, hid⟩ := List.mem_map.mp hmem
  exact ⟨event, hevent, hid, fun event' hevent' hid' =>
    List.inj_on_of_nodup_map hnodup hevent' hevent (hid'.trans hid.symm)⟩

/-- NO LOSS: in every reachable state each stored batch has exactly one outbox event; the event is in
    the stream if it is marked published and can still be selected if not; and an entry that was
    acknowledged is processed or dead-lettered in both places. -/
theorem no_acknowledged_batch_lost {t : List (ι × Event)} {c : Config ι (Shared ι) Local}
    (h : Run (pipeline libs settings) t c) :
    (∀ record ∈ c.shared.db.telemetryBatches.rows, ∃ event ∈ c.shared.db.outboxEvents.rows,
      event.aggregateId = record.batchId.str ∧
      (∀ event' ∈ c.shared.db.outboxEvents.rows, event'.aggregateId = record.batchId.str →
        event' = event) ∧
      (event.publishedAt ≠ none → ∃ fields ∈ c.shared.stream.entries,
        fields.lookup "event_id" = some event.eventId.str) ∧
      (event.publishedAt = none → Selectable c event)) ∧
    ∀ id, c.shared.stream.Acked id →
      (∃ fields event, c.shared.stream.entries[id]? = some fields ∧
        decodeEvent libs fields = .ok event ∧
        event.eventId ∈ c.shared.db.processedEvents.keys) ∨
      ((∃ row ∈ c.shared.db.deadLetters.rows, row.streamMessageId = id) ∧
        ∃ entry ∈ c.shared.deadLetters, entry.sourceId = id) := by
  have hd := (durable_run h).1
  refine ⟨fun record hr => ?_, fun id hid => ?_⟩
  · obtain ⟨event, hevent, hid, hunique⟩ := hd.outbox_unique hr
    refine ⟨event, hevent, hid, hunique, fun hp => ?_, fun hp => ?_⟩
    · exact ⟨publishFields event, hd.published event hevent hp, rfl⟩
    · exact ⟨mem_unpublished.mpr ⟨hevent, hp⟩, fun lock hlock _ => locks_open h lock hlock⟩
  · exact (hd.settled id hid).imp_right (fun h => ⟨Table.mem_keys.mp h.1, h.2⟩)

end

/-- A batch that is ingested, published and processed: its entry is acknowledged. -/
theorem no_acknowledged_batch_lost_once :
    ∃ t c, Run (pipeline Libraries.canonical (fun _ : Unit => smallSettings)) t c ∧
      c.shared.stream.Acked 0 ∧
      ((∃ fields event, c.shared.stream.entries[0]? = some fields ∧
        decodeEvent Libraries.canonical fields = .ok event ∧
        event.eventId ∈ c.shared.db.processedEvents.keys) ∨
      ((∃ row ∈ c.shared.db.deadLetters.rows, row.streamMessageId = 0) ∧
        ∃ entry ∈ c.shared.deadLetters, entry.sourceId = 0)) := by
  have hrun : (schedule Libraries.canonical (fun _ : Unit => smallSettings)
      ((ingestActions olderBatch 5 (uniformId 3) ++
        publishActions [outboxEvent 5 (uniformId 3) "request" olderBatch] ++ readActions ++
        handleActions).map (fun a => ((), a))) [] (initial Unit)).any
      (fun r => decide (r.2.shared.stream.Acked 0)) = true := by decide +kernel
  obtain ⟨t, c, hrun, hacked⟩ := exists_run hrun
  have hacked := of_decide_eq_true hacked
  exact ⟨t, c, hrun, hacked, (no_acknowledged_batch_lost hrun).2 0 hacked⟩

end FleetPulse
