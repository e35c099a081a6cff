import FleetPulse.Pipeline.Recovery

/-! `QUEUE_PENDING`, the gauge that a worker sets at the end of a round: what its value says about
    the work that is left.

        outbox ── unpublished ──▶ stream ── lag ──▶ group ── pending ──▶ acknowledged
                                  └─────── QUEUE_PENDING ───────┘

    An entry can be in the stream twice (a relay that was rolled back adds it again) and can be
    delivered again, so the gauge may count more than one entry for an event. It never counts less
    than the published events that are not processed. -/

namespace FleetPulse
open Values Interleaving ConsumerGroup

variable {ι : Type} [DecidableEq ι] {libs : Libraries} {settings : ι → WorkerSettings}
  {c : Config ι (Shared ι) Local}

theorem advance_distinct {settings : WorkerSettings} {id : ℕ} {fields : Fields} {h h' : Handling}
    {s s' : Stores} (ha : advance libs settings id fields h s = .ok (h', s'))
    (hs : s.stream.Distinct) : s'.stream.Distinct := by
  have hcases := advance_cases ha
  cases h with
  | received => rw [hcases.1]; exact hs
  | processing event =>
    rcases hcases with ⟨db, -, -, rfl⟩ | ⟨e, -, -, -, rfl⟩
    · exact hs
    · exact hs
  | failed error => rw [hcases.1]; exact hs
  | recording error attempts => rw [hcases.2.2]; exact hs
  | settling | discarding => rw [hcases.2]; exact hs.ack id
  | deadLettering _ _ | invalidating | returned => rw [hcases.2]; exact hs

theorem Step.distinct {i : ι} {s s' : Shared ι} {l l' : Local} {e : Event}
    (h : Step libs settings i s l e s' l') (hs : s.stream.Distinct) : s'.stream.Distinct := by
  cases h with
  | api h => cases h <;> exact hs
  | relay h => cases h <;> exact hs
  | worker h => cases h with
    | claim idle => exact hs.autoclaim idle pollCount
    | read => exact hs.readGroup pollCount
    | advance _ ha => exact advance_distinct ha hs
    | _ => exact hs
  | reader h =>
    obtain ⟨-, hstream, -⟩ := h.frame
    rw [hstream]
    exact hs
  | expire | stop => exact hs

theorem distinct_run {t : List (ι × Event)} (h : Run (pipeline libs settings) t c) :
    c.shared.stream.Distinct :=
  h.invariant (I := fun s => s.stream.Distinct) List.nodup_nil
    (fun _ _ _ _ _ _ _ _ hs hstep => Step.distinct hstep hs)

/-- The outbox rows that are published and not processed. -/
def unprocessed (db : Database) : List OutboxEventRecord :=
  db.outboxEvents.rows.filter (fun event =>
    decide (event.publishedAt ≠ none ∧ event.eventId ∉ db.processedEvents.keys))

/-! ### The counts -/

theorem length_le_of_cover {α : Type} {p q r : α → Bool} {l : List α}
    (h : ∀ a ∈ l, p a = true ∨ q a = true ∨ r a = true) :
    l.length ≤ (l.filter p).length + (l.filter q).length + (l.filter r).length := by
  induction l with
  | nil => simp
  | cons a l ih =>
    have hl := ih (fun b hb => h b (List.mem_cons_of_mem a hb))
    have ha := h a (List.mem_cons_self ..)
    simp only [List.filter_cons, List.length_cons]
    split <;> split <;> split <;> simp_all <;> omega

/-- As many rows as keys are asked for, at most. -/
theorem length_filter_key_mem_le {κ ρ : Type} [DecidableEq κ] {key : ρ → κ} (t : Table key)
    (ks : List κ) : (t.rows.filter (fun r => decide (key r ∈ ks))).length ≤ ks.length := by
  have hnodup : ((t.rows.filter (fun r => decide (key r ∈ ks))).map key).Nodup :=
    t.nodup.sublist (List.filter_sublist.map key)
  have hsub : (t.rows.filter (fun r => decide (key r ∈ ks))).map key ⊆ ks := by
    intro k hk
    obtain ⟨r, hr, rfl⟩ := List.mem_map.mp hk
    exact of_decide_eq_true (List.mem_filter.mp hr).2
  have hle := (hnodup.subperm hsub).length_le
  rwa [List.length_map] at hle

section
variable {s : Stores}

/-- The ids on the entries that nobody has acknowledged. -/
def openEventIds (s : Stores) : List String :=
  ((List.range s.stream.entries.length).filter (fun id => ¬ s.stream.Acked id)).filterMap (fun id =>
    s.stream.entries[id]?.bind (fun fields => fields.lookup "event_id"))

theorem length_openEventIds_le : (openEventIds s).length ≤ (unacknowledged s.stream).card :=
  List.length_filterMap_le _ _

/-- The entry of a row that is not processed is still open. -/
theorem mem_openEventIds (hd : Durable libs s) (hnone : s.deadLetters = [])
    {event : OutboxEventRecord} (h : event ∈ unprocessed s.db) :
    event.eventId.str ∈ openEventIds s := by
  obtain ⟨hevent, hcond⟩ := List.mem_filter.mp h
  obtain ⟨hpublished, hunprocessed⟩ := of_decide_eq_true hcond
  obtain ⟨id, hlt, hentry⟩ := List.mem_iff_getElem.mp (hd.published event hevent hpublished)
  have hentry' : s.stream.entries[id]? = some (publishFields event) :=
    List.getElem?_eq_some_iff.mpr ⟨hlt, hentry⟩
  obtain ⟨batch, haccepted⟩ := hd.accepted (List.mem_map_of_mem hevent)
  refine List.mem_filterMap.mpr ⟨id, List.mem_filter.mpr ⟨List.mem_range.mpr hlt, ?_⟩, ?_⟩
  · refine decide_eq_true (fun hacked => ?_)
    rcases hd.settled id hacked with ⟨fields, event', hfields, hdecode, hprocessed⟩ |
      ⟨-, letter, hletter, -⟩
    · obtain rfl := Option.some.inj (hentry'.symm.trans hfields)
      rw [haccepted.decodes] at hdecode
      cases hdecode
      exact hunprocessed hprocessed
    · rw [hnone] at hletter
      cases hletter
  · rw [hentry']
    simp [publishFields]

theorem length_unprocessed_le (hd : Durable libs s) (hnone : s.deadLetters = []) :
    (unprocessed s.db).length ≤ (unacknowledged s.stream).card := by
  have hnodup : ((unprocessed s.db).map (fun event => event.eventId.str)).Nodup := by
    have hids := (s.db.outboxEvents.nodup.sublist (List.filter_sublist.map _ :
      ((unprocessed s.db).map OutboxEventRecord.eventId).Sublist _)).map UUID.str_injective
    rwa [List.map_map] at hids
  have hsub : (unprocessed s.db).map (fun event => event.eventId.str) ⊆ openEventIds s := by
    intro id hid
    obtain ⟨event, hevent, rfl⟩ := List.mem_map.mp hid
    exact mem_openEventIds hd hnone hevent
  have hle := (hnodup.subperm hsub).length_le
  rw [List.length_map] at hle
  exact hle.trans length_openEventIds_le

/-- A batch has its one outbox row, and its event is processed, unpublished, or on its way. -/
theorem length_batches_le (hd : Durable libs s) : s.db.telemetryBatches.rows.length ≤
    s.db.processedEvents.rows.length + (unpublished s.db).length + (unprocessed s.db).length := by
  have hrows : s.db.telemetryBatches.rows.length = s.db.outboxEvents.rows.length := by
    have hlength := hd.announced.length_eq
    rwa [List.length_map, eq_comm] at hlength
  have hdone := length_filter_key_mem_le s.db.outboxEvents s.db.processedEvents.keys
  have hkeys : s.db.processedEvents.keys.length = s.db.processedEvents.rows.length :=
    List.length_map _
  have hcover := length_le_of_cover (l := s.db.outboxEvents.rows)
    (p := fun event => decide (event.eventId ∈ s.db.processedEvents.keys))
    (q := fun event => event.publishedAt.isNone)
    (r := fun event => decide (event.publishedAt ≠ none ∧ event.eventId ∉ s.db.processedEvents.keys))
    (fun event _ => by
      by_cases hdone : event.eventId ∈ s.db.processedEvents.keys
      · simp [hdone]
      · cases hat : event.publishedAt <;> simp [hdone])
  rw [unpublished, unprocessed]
  omega

theorem length_processed_le (hb : Backed libs s.db) (hd : Durable libs s) :
    s.db.processedEvents.rows.length ≤ s.db.telemetryBatches.rows.length := by
  have hsub : s.db.processedEvents.keys ⊆ s.db.outboxEvents.keys := by
    intro id hid
    obtain ⟨row, hrow, rfl⟩ := List.mem_map.mp hid
    obtain ⟨batch, hbatch⟩ := Option.isSome_iff_exists.mp (hb row hrow)
    obtain ⟨event, hfind, -⟩ := Option.bind_eq_some_iff.mp hbatch
    obtain ⟨hevent, hsame⟩ := Table.find?_eq_some_iff.mp hfind
    exact hsame ▸ Table.key_mem_keys hevent
  have hle := (s.db.processedEvents.nodup.subperm hsub).length_le
  have hrows := hd.announced.length_eq
  rw [Table.keys, List.length_map, List.length_map] at hle
  rw [List.length_map] at hrows
  exact hle.trans hrows.le

end

/-- What becomes of a batch that was accepted: it is processed, or its event waits in the outbox, or
    an entry of its event is not acknowledged. -/
theorem batch_counted {t : List (ι × Event)} (h : Run (pipeline libs settings) t c)
    {record : TelemetryBatchRecord} (hrecord : record ∈ c.shared.db.telemetryBatches.rows) :
    (∃ batch ∈ processedBatches libs c.shared.db, batch.batchId = record.batchId) ∨
      (∃ event ∈ unpublished c.shared.db, event.aggregateId = record.batchId.str) ∨
      ∃ id ∈ unacknowledged c.shared.stream, ∃ fields, c.shared.stream.entries[id]? = some fields ∧
        fields.lookup "aggregate_id" = some record.batchId.str := by
  obtain ⟨hd, -⟩ := durable_run h
  obtain ⟨event, hevent, haggregate, -⟩ := hd.outbox_unique hrecord
  by_cases hpublished : event.publishedAt = none
  · exact .inr (.inl ⟨event, mem_unpublished.mpr ⟨hevent, hpublished⟩, haggregate⟩)
  · obtain ⟨id, hlt, hid⟩ := List.mem_iff_getElem.mp (hd.published event hevent hpublished)
    have hentry : c.shared.stream.entries[id]? = some (publishFields event) :=
      List.getElem?_eq_some_iff.mpr ⟨hlt, hid⟩
    by_cases hacked : c.shared.stream.Acked id
    · obtain ⟨batch, hbatch, hsame, -⟩ := processed_of_acked h hrecord haggregate hevent hentry hacked
      exact .inl ⟨batch, hbatch, hsame⟩
    · exact .inr (.inr ⟨id, mem_unacknowledged.mpr ⟨hlt, hacked⟩, publishFields event, hentry,
        by simp [publishFields, List.lookup_cons, haggregate]⟩)

theorem Step.measured {i : ι} {s s' : Shared ι} {l l' : Local} {n : ℕ}
    (h : Step libs settings i s l (.measured n) s' l') : s' = s ∧ n = queuePending s.toStores := by
  cases h with
  | api h => cases h
  | relay h => cases h
  | worker h => cases h; exact ⟨rfl, rfl⟩
  | reader h => cases h

/-- THE GAUGE: what a worker sets is the number of entries that nobody has acknowledged at that
    moment. Every batch that was accepted is processed, or not yet published, or one of its entries
    is counted; and when the outbox and the gauge are empty, everything that was accepted is
    processed and shown. -/
theorem queue_gauge {t : List (ι × Event)} (h : Run (pipeline libs settings) t c) :
    (∀ t' i n, t = t' ++ [(i, .measured n)] → n = queuePending c.shared.toStores) ∧
    queuePending c.shared.toStores = (unacknowledged c.shared.stream).card ∧
    (∀ record ∈ c.shared.db.telemetryBatches.rows,
      (∃ batch ∈ processedBatches libs c.shared.db, batch.batchId = record.batchId) ∨
      (∃ event ∈ unpublished c.shared.db, event.aggregateId = record.batchId.str) ∨
      ∃ id ∈ unacknowledged c.shared.stream, ∃ fields,
        c.shared.stream.entries[id]? = some fields ∧
          fields.lookup "aggregate_id" = some record.batchId.str) ∧
    c.shared.db.processedEvents.rows.length ≤ c.shared.db.telemetryBatches.rows.length ∧
    c.shared.db.telemetryBatches.rows.length ≤ c.shared.db.processedEvents.rows.length +
      (unpublished c.shared.db).length + queuePending c.shared.toStores ∧
    (unpublished c.shared.db = [] → queuePending c.shared.toStores = 0 →
      Finished libs c.shared.toStores) := by
  obtain ⟨hd, -⟩ := durable_run h
  obtain ⟨hnone, -⟩ := no_dead_letters h
  have hgauge : queuePending c.shared.toStores = (unacknowledged c.shared.stream).card :=
    (distinct_run h).pending_add_lag
  refine ⟨?_, hgauge, fun record hrecord => batch_counted h hrecord,
    length_processed_le (stateMirrors_run h).backed hd, ?_, fun hpublished hempty => ?_⟩
  · rintro t' i n rfl
    obtain ⟨s, loc, s', l', -, hstep, rfl⟩ := h.exists_before
    obtain ⟨rfl, hn⟩ := Step.measured hstep
    exact hn
  · have hbatches := length_batches_le hd
    have hopen := length_unprocessed_le hd hnone
    omega
  · exact finished_of_quiet ⟨t, h⟩ (by rw [hpublished]; rfl) (hgauge ▸ hempty)

/-- A batch that is published while the only worker goes through a round: the gauge shows it. -/
theorem queue_gauge_read : ∃ t c,
    Run (pipeline Libraries.canonical (fun _ : Bool => smallSettings)) t c ∧
    c.shared.db.telemetryBatches.rows.length = 1 ∧ c.shared.db.processedEvents.rows = [] ∧
    unpublished c.shared.db = [] ∧ (unacknowledged c.shared.stream).card = 1 ∧
    ∃ t', t = t' ++ [(true, .measured 1)] := by
  have hrun : (schedule Libraries.canonical (fun _ : Bool => smallSettings)
      (readActions.map (fun a => (true, a)) ++
        (ingestActions olderBatch 5 (uniformId 3) ++
          publishActions [outboxEvent 5 (uniformId 3) "request" olderBatch]).map
            (fun a => (false, a)) ++ [(true, .go)]) [] (initial Bool)).any
      (fun r => decide (r.2.shared.db.telemetryBatches.rows.length = 1 ∧
        r.2.shared.db.processedEvents.rows.length = 0 ∧ (unpublished r.2.shared.db).length = 0 ∧
        r.1.getLast? = some (true, .measured 1))) = true := by
    decide +kernel
  obtain ⟨t, c, hrun, hcheck⟩ := exists_run hrun
  obtain ⟨hbatches, hprocessed, hpublished, hlast⟩ := of_decide_eq_true hcheck
  obtain ⟨t', rfl⟩ : ∃ t', t = t' ++ [(true, .measured 1)] :=
    ⟨t.dropLast, (List.dropLast_append_getLast? _ hlast).symm⟩
  obtain ⟨hmeasured, hgauge, -⟩ := queue_gauge hrun
  exact ⟨_, c, hrun, hbatches, List.length_eq_zero_iff.mp hprocessed,
    List.length_eq_zero_iff.mp hpublished, (hmeasured t' true 1 rfl |>.trans hgauge).symm, t', rfl⟩

end FleetPulse
