import FleetPulse.Pipeline.EndToEnd

/-! Poison messages: which entries make `handle_message` raise, and what becomes of all the others.

    The workers here share one stream whose entries anybody may have written, over a database that
    anybody may add to. An error that the `except` clause does not name escapes into `run` and the
    worker is gone; `Digestible` says of the stores that a step finds exactly when that does not
    happen. Whatever is delivered for the last time and returns is acknowledged, and settled. -/

namespace FleetPulse
open Values Interleaving

/-! ### Errors -/

/-- The payload text is nested deeper than the interpreter follows it. -/
def TooDeep (libs : Libraries) (fields : Fields) : Prop :=
  (fields.lookup "event_id").isSome ∧ (fields.lookup "event_type").isSome ∧
    (fields.lookup "aggregate_id").isSome ∧ ∃ text, fields.lookup "payload" = some text ∧
    Json.loads libs.recursionLimit text = .error .recursion

/-- The event names a stored batch, and if its payload is that of a batch, the agent is known. -/
def NamesBatch (libs : Libraries) (db : Database) (aggregateId : String) : Prop :=
  ∃ batchId record, libs.bindUuid aggregateId = some batchId ∧
    db.telemetryBatches.find? batchId = some record ∧
    ∀ batch, TelemetryBatch.validate libs record.payload = some batch →
      batch.agentId ∈ db.agents.keys

/-- What a step of `handle_message` has to find so that no error escapes from it. -/
def Digestible (libs : Libraries) (fields : Fields) (s : Stores) : Handling → Prop
  | .received => ¬ TooDeep libs fields
  | .processing event => event.eventId ∉ s.db.processedEvents.keys →
      event.eventType = "telemetry.batch.accepted.v1" → NamesBatch libs s.db event.aggregateId
  | .recording _ attempts => fitsVarchar 128 ((fields.lookup "event_id").getD "unknown") = true ∧
      fitsInteger attempts = true ∧ storableMapping fields = true
  | _ => True

section
variable {libs : Libraries} {settings : WorkerSettings} {s : Stores}

/-- What leaves the `try` block is what the clause does not name. -/
theorem tryBlock_map_escapes {α : Type} {x : Except PyError α} {f : α → Handling × Stores} :
    (∃ e, tryBlock s (x.map f) = .error e) ↔ ∃ e, x = .error e ∧ e.caught = false := by
  cases x with
  | ok a => simp [Except.map, tryBlock]
  | error e => cases hc : e.caught <;> simp [Except.map, tryBlock, hc]

theorem fieldOf_cases (fields : Fields) (name : String) :
    (∃ value, fields.lookup name = some value ∧ fieldOf fields name = .ok value) ∨
      (fields.lookup name = none ∧ fieldOf fields name = .error .key) := by
  unfold fieldOf
  cases h : fields.lookup name with
  | some value => exact Or.inl ⟨value, rfl, rfl⟩
  | none => exact Or.inr ⟨rfl, rfl⟩

/-- The only error of `decode_event` that the clause does not name comes from deep nesting. -/
theorem decodeEvent_escapes {fields : Fields} :
    (∃ e, decodeEvent libs fields = .error e ∧ e.caught = false) ↔ TooDeep libs fields := by
  unfold decodeEvent TooDeep
  rcases fieldOf_cases fields "event_id" with ⟨eventId, hid, hfid⟩ | ⟨hid, hfid⟩
  swap
  · simp [hid, hfid, bind, Except.bind, PyError.caught]
  rcases fieldOf_cases fields "event_type" with ⟨eventType, htype, hftype⟩ | ⟨htype, hftype⟩
  swap
  · simp [hid, hfid, htype, hftype, bind, Except.bind, PyError.caught]
  rcases fieldOf_cases fields "aggregate_id" with ⟨aggregateId, hagg, hfagg⟩ | ⟨hagg, hfagg⟩
  swap
  · simp [hid, hfid, htype, hftype, hagg, hfagg, bind, Except.bind, PyError.caught]
  rcases fieldOf_cases fields "payload" with ⟨text, htext, hftext⟩ | ⟨htext, hftext⟩
  swap
  · simp [hid, hfid, htype, hftype, hagg, hfagg, htext, hftext, bind, Except.bind, PyError.caught]
  simp only [hid, hfid, htype, hftype, hagg, hfagg, htext, hftext, bind, Except.bind]
  cases hloads : Json.loads libs.recursionLimit text with
  | error e => cases e <;> simp [Except.mapError, loadError, PyError.caught, hloads]
  | ok payload =>
    simp only [Except.mapError]
    split <;> simp [hloads, PyError.caught]

/-- A batch is missing when its id cannot be bound or no row has it; a payload that is no batch is
    refused by its validation. -/
theorem storedBatch_cases (libs : Libraries) (aggregateId : String) (db : Database) :
    (∃ batchId record batch, libs.bindUuid aggregateId = some batchId ∧
      db.telemetryBatches.find? batchId = some record ∧
      TelemetryBatch.validate libs record.payload = some batch ∧
      storedBatch libs aggregateId db = .ok batch) ∨
    (∃ batchId record, libs.bindUuid aggregateId = some batchId ∧
      db.telemetryBatches.find? batchId = some record ∧
      TelemetryBatch.validate libs record.payload = none ∧
      storedBatch libs aggregateId db = .error .validation) ∨
    (∃ e, storedBatch libs aggregateId db = .error e ∧ e.caught = false ∧
      ∀ batchId, libs.bindUuid aggregateId = some batchId →
        db.telemetryBatches.find? batchId = none) := by
  unfold storedBatch
  cases hid : libs.bindUuid aggregateId with
  | none => exact Or.inr (Or.inr ⟨.dbapi, rfl, rfl, fun _ h => (nomatch h)⟩)
  | some batchId =>
    cases hrecord : db.telemetryBatches.find? batchId with
    | none =>
      refine Or.inr (Or.inr ⟨.noResultFound, by simp only [hrecord]; rfl, rfl, ?_⟩)
      rintro _ ⟨⟩
      exact hrecord
    | some record =>
      cases hbatch : TelemetryBatch.validate libs record.payload with
      | none =>
        exact Or.inr (Or.inl ⟨batchId, record, rfl, hrecord, hbatch,
          by simp only [hrecord, hbatch]; rfl⟩)
      | some batch =>
        exact Or.inl ⟨batchId, record, batch, rfl, hrecord, hbatch,
          by simp only [hrecord, hbatch]; rfl⟩

/-- A new event of the right type fails with the batch that it names, or for an unknown agent. -/
theorem processEvent_new (libs : Libraries) (settings : WorkerSettings) (messageId : ℕ)
    {event : QueueEvent} {db : Database}
    (hnew : event.eventId ∉ db.processedEvents.keys)
    (htype : event.eventType = "telemetry.batch.accepted.v1") :
    (∀ e, storedBatch libs event.aggregateId db = .error e →
      processEvent libs settings messageId event db = .error e) ∧
    (∀ batch, storedBatch libs event.aggregateId db = .ok batch →
      batch.agentId ∉ db.agents.keys →
      processEvent libs settings messageId event db = .error .dbapi) := by
  rcases db.processedEvents.insertOrIgnore_cases ⟨event.eventId, messageId, settings.consumerName⟩
    with ⟨hmem, -, -⟩ | ⟨-, -, hins⟩
  · exact absurd hmem hnew
  refine ⟨fun e hstored => ?_, fun batch hstored hagent => ?_⟩
  · simp [processEvent, hins, htype, hstored, bind, Except.bind]
  · simp [processEvent, hins, htype, hstored, latestSample_eq, maxDiskPercent_eq, hagent, execute,
      bind, Except.bind]

/-- The transaction of `process_event` raises what the clause does not name exactly if the event is
    new, of the right type, and names no batch that can be shown. -/
theorem processEvent_escapes {messageId : ℕ} {event : QueueEvent} {db : Database} :
    (∃ e, processEvent libs settings messageId event db = .error e ∧ e.caught = false) ↔
      event.eventId ∉ db.processedEvents.keys ∧
        event.eventType = "telemetry.batch.accepted.v1" ∧
        ¬ NamesBatch libs db event.aggregateId := by
  by_cases hnew : event.eventId ∈ db.processedEvents.keys
  · obtain ⟨db', hok⟩ := processEvent_commits libs settings messageId
      (fun h => absurd hnew h)
    simp [hok, hnew]
  by_cases htype : event.eventType = "telemetry.batch.accepted.v1"
  swap
  · rcases db.processedEvents.insertOrIgnore_cases
      ⟨event.eventId, messageId, settings.consumerName⟩ with ⟨hmem, -, -⟩ | ⟨-, -, hins⟩
    · exact absurd hmem hnew
    · simp [processEvent, hins, htype, throw, throwThe, MonadExceptOf.throw, bind, Except.bind,
        PyError.caught]
  obtain ⟨herror, hunknown⟩ := processEvent_new libs settings messageId hnew htype
  rcases storedBatch_cases libs event.aggregateId db with
    ⟨batchId, record, batch, hid, hrecord, hvalidate, hstored⟩ |
    ⟨batchId, record, hid, hrecord, hvalidate, hstored⟩ | ⟨e, hstored, hcaught, hmissing⟩
  · have hnames : NamesBatch libs db event.aggregateId ↔ batch.agentId ∈ db.agents.keys := by
      simp [NamesBatch, hid, hrecord, hvalidate]
    by_cases hagent : batch.agentId ∈ db.agents.keys
    · obtain ⟨db', hok⟩ := processEvent_commits libs settings messageId
        (fun _ => ⟨htype, batch, hstored, hagent⟩)
      simp [hok, hnames, hagent]
    · simp [hunknown batch hstored hagent, hnew, htype, hnames, hagent, PyError.caught]
  · have hnames : NamesBatch libs db event.aggregateId := by
      simp [NamesBatch, hid, hrecord, hvalidate]
    simp [herror _ hstored, hnames, PyError.caught]
  · have hnames : ¬ NamesBatch libs db event.aggregateId := by
      rintro ⟨batchId, record, hid, hrecord, -⟩
      rw [hmissing batchId hid] at hrecord
      cases hrecord
    exact ⟨fun _ => ⟨hnew, htype, hnames⟩, fun _ => ⟨e, herror e hstored, hcaught⟩⟩

/-- ESCAPE: a step raises out of `handle_message` exactly on stores that are not digestible. -/
theorem advance_escapes (settings : WorkerSettings) (id : ℕ) {fields : Fields} {h : Handling} :
    (∃ e, advance libs settings id fields h s = .error e) ↔ ¬ Digestible libs fields s h := by
  cases h with
  | received =>
    simp only [Digestible, not_not, ← decodeEvent_escapes, advance]
    exact tryBlock_map_escapes
  | processing event =>
    simp only [Digestible, advance]
    rw [tryBlock_map_escapes, processEvent_escapes]
    tauto
  | recording error attempts =>
    simp only [Digestible, advance, deadLetterRecord, DeadLetterRecord.storable]
    cases fitsVarchar 128 ((fields.lookup "event_id").getD "unknown") <;>
      cases fitsInteger attempts <;> cases storableMapping fields <;>
      simp [execute, bind, Except.bind]
  | failed error =>
    simp only [Digestible, advance, not_true_eq_false, iff_false, not_exists]
    split <;> simp
  | invalidating | settling | deadLettering _ _ | discarding | returned =>
    simp [Digestible, advance]

end

/-! ### Deliveries -/

/-- What happens outside the workers: entries are added to the stream by anybody, rows to the
    database; nobody else acknowledges or claims. -/
structure Outside {ι : Type} (s s' : Shared ι) : Prop where
  grows : Grows s.toStores s'.toStores
  delivered : s'.stream.delivered = s.stream.delivered
  pending : s'.stream.pending = s.stream.pending

/-- What a step leaves in the run. -/
inductive Occurrence where
  | worker (e : Event)
  | escaped (id : ℕ) (h : Handling) (error : PyError)
  | stopped
  | outside
  deriving DecidableEq

/-- One step: of the worker `i`, which is gone once an error has escaped from `handle_message`, of
    whoever stops and restarts it, or of the others. -/
inductive ConsumerStep {ι : Type} (libs : Libraries) (settings : ι → WorkerSettings) :
    ι → Shared ι → Except PyError Local → Occurrence → Shared ι → Except PyError Local → Prop
  | worker {i s l e s' l'} : WorkerStep libs (settings i) s l e s' l' →
      ConsumerStep libs settings i s (.ok l) (.worker e) s' (.ok l')
  | escape {i s next queue id fields h e} : advance libs (settings i) id fields h s.toStores =
      .error e → ConsumerStep libs settings i s (.ok (.handling next queue id fields h))
        (.escaped id h e) s (.error e)
  | stop (i s l) : ConsumerStep libs settings i s l .stopped s (.ok .idle)
  | outside {i s s' l} : Outside s s' → ConsumerStep libs settings i s l .outside s' l

/-- Any number of workers on one stream. -/
def consumers {ι : Type} (libs : Libraries) (settings : ι → WorkerSettings) :
    Program ι (Shared ι) (Except PyError Local) Occurrence where
  init := Shared.init ι
  start _ l := l = .ok .idle
  step := ConsumerStep libs settings

/-- The step was one of a worker. -/
def Occurrence.ofWorker : Occurrence → Bool
  | .worker _ | .escaped .. => true
  | _ => false

/-- The step was one of `handle_message`. -/
def Occurrence.ofHandling : Occurrence → Bool
  | .worker (.advanced ..) => true
  | _ => false

/-- A worker that makes a step of `handle_message` finds digestible stores. -/
def Digests {ι : Type} (libs : Libraries) (s : Shared ι) (l : Except PyError Local)
    (e : Occurrence) : Prop :=
  e.ofWorker = true → ∀ next queue id fields h, l = .ok (.handling next queue id fields h) →
    Digestible libs fields s.toStores h

/-- The runs in which every step of `handle_message` finds digestible stores. -/
def digestingConsumers {ι : Type} [DecidableEq ι] (libs : Libraries)
    (settings : ι → WorkerSettings) : Program ι (Shared ι) (Except PyError Local) Occurrence :=
  (consumers libs settings).restrict (fun _ s l e => Digests libs s l e)

/-- Steps that `handle_message` has left at most. -/
def Handling.remaining : Handling → ℕ
  | .received => 6
  | .processing _ => 5
  | .failed _ => 4
  | .deadLettering _ _ => 3
  | .recording _ _ | .invalidating => 2
  | .discarding | .settling => 1
  | .returned => 0

theorem advance_remaining {libs : Libraries} {settings : WorkerSettings} {id : ℕ} {fields : Fields}
    {h h' : Handling} {s s' : Stores} (ha : advance libs settings id fields h s = .ok (h', s'))
    (hne : h ≠ .returned) : h'.remaining < h.remaining := by
  have hcases := advance_cases ha
  cases h with
  | received => obtain ⟨-, ⟨event, -, rfl⟩ | ⟨e, -, -, rfl⟩⟩ := hcases <;> simp [Handling.remaining]
  | processing event =>
    rcases hcases with ⟨db, -, rfl, -⟩ | ⟨e, -, -, rfl, -⟩ <;> simp [Handling.remaining]
  | failed error => obtain ⟨-, ⟨-, rfl⟩ | ⟨-, rfl⟩⟩ := hcases <;> simp [Handling.remaining]
  | recording error attempts => obtain ⟨-, rfl, -⟩ := hcases; simp [Handling.remaining]
  | returned => exact absurd rfl hne
  | invalidating | settling | deadLettering _ _ | discarding =>
    obtain ⟨rfl, -⟩ := hcases; simp [Handling.remaining]

/-- `handle_message` ends: it returns within six steps, or an error has escaped before. -/
theorem handleMessage_returned {libs : Libraries} {settings : WorkerSettings} {id : ℕ}
    {fields : Fields} {s s' : Stores} {h : Handling}
    (hm : handleMessage libs settings id fields s = .ok (h, s')) : h = .returned := by
  have hzero : ∀ n h₀ s₀, h₀.remaining ≤ n →
      advanceTimes libs settings id fields n h₀ s₀ = .ok (h, s') → h = .returned := by
    intro n
    induction n with
    | zero =>
      intro h₀ s₀ hle ht
      cases ht
      cases h <;> simp [Handling.remaining] at hle ⊢
    | succ n ih =>
      intro h₀ s₀ hle ht
      obtain ⟨⟨h₁, s₁⟩, ha, ht⟩ := bind_eq_ok.mp ht
      refine ih h₁ s₁ ?_ ht
      by_cases hne : h₀ = .returned
      · subst hne
        cases ha
        exact Nat.zero_le n
      · have := advance_remaining ha hne
        omega
  exact hzero 6 .received s le_rfl hm

/-! ### Runs -/

section
variable {ι : Type} [DecidableEq ι] {libs : Libraries} {settings : ι → WorkerSettings}
  {s s' : Shared ι} {l l' : Except PyError Local} {e : Occurrence} {i : ι}

/-- `handle_message` changes nothing of the stream but what it acknowledges. -/
theorem advance_stream {libs : Libraries} {settings : WorkerSettings} {id : ℕ} {fields : Fields}
    {h h' : Handling} {s s' : Stores} (ha : advance libs settings id fields h s = .ok (h', s')) :
    s'.stream = s.stream ∨ s'.stream = s.stream.ack id := by
  have hcases := advance_cases ha
  cases h with
  | received => rw [hcases.1]; exact Or.inl rfl
  | processing event => rcases hcases with ⟨db, -, -, rfl⟩ | ⟨e, -, -, -, rfl⟩ <;> exact Or.inl rfl
  | failed error => rw [hcases.1]; exact Or.inl rfl
  | recording error attempts => rw [hcases.2.2]; exact Or.inl rfl
  | settling | discarding => rw [hcases.2]; exact Or.inr rfl
  | invalidating | deadLettering _ _ | returned => rw [hcases.2]; exact Or.inl rfl

omit [DecidableEq ι] in
theorem ConsumerStep.grows (h : ConsumerStep libs settings i s l e s' l') :
    Grows s.toStores s'.toStores := by
  cases h with
  | worker h => exact h.frame.1
  | escape _ => exact Grows.refl _
  | stop => exact Grows.refl _
  | outside h => exact h.grows

omit [DecidableEq ι] in
/-- Neither a count nor an acknowledgement is ever taken back. -/
theorem ConsumerStep.due (h : ConsumerStep libs settings i s l e s' l') {n id : ℕ}
    (hd : s.stream.Due n id) : s'.stream.Due n id := by
  cases h with
  | worker h => cases h with
    | claim idle => exact ConsumerGroup.due_autoclaim hd
    | read => exact ConsumerGroup.due_readGroup hd
    | advance _ ha =>
      rcases advance_stream ha with hstream | hstream
      · rw [hstream]; exact hd
      · rw [hstream]; exact ConsumerGroup.due_ack hd
    | _ => exact hd
  | escape _ => exact hd
  | stop => exact hd
  | outside h => exact (ConsumerGroup.due_congr h.delivered h.pending n id).mpr hd

omit [DecidableEq ι] in
theorem ConsumerStep.acked (h : ConsumerStep libs settings i s l e s' l') {id : ℕ}
    (hid : s.stream.Acked id) : s'.stream.Acked id := by
  cases h with
  | worker h => cases h with
    | claim idle => exact ConsumerGroup.acked_autoclaim.mpr hid
    | read => exact ConsumerGroup.acked_readGroup.mpr hid
    | advance _ ha =>
      rcases advance_stream ha with hstream | hstream
      · rw [hstream]; exact hid
      · rw [hstream]; exact ConsumerGroup.acked_ack.mpr (Or.inl hid)
    | _ => exact hid
  | escape _ => exact hid
  | stop => exact hid
  | outside h => exact (ConsumerGroup.acked_congr h.delivered h.pending id).mpr hid

/-- The assertion of a worker that is still there. -/
def consumerAssertion (libs : Libraries) (s : Stores) : Except PyError Local → Prop
  | .ok l => assertion libs s l
  | .error _ => True

theorem consumerAssertion_mono {s s' : Stores} (hg : Grows s s')
    (h : consumerAssertion libs s l) : consumerAssertion libs s' l := by
  cases l with
  | ok l => exact assertion_mono hg h
  | error e => trivial

/-- Whatever is acknowledged is settled, in every run. -/
theorem consumers_settle {t : List (ι × Occurrence)} {c : Config ι (Shared ι) (Except PyError Local)}
    (h : Run (consumers libs settings) t c) :
    (∀ id, c.shared.stream.Acked id → Settled libs c.shared.toStores id) ∧
      ∀ i, consumerAssertion libs c.shared.toStores (c.loc i) := by
  refine h.outline (I := fun _ s => ∀ id, s.stream.Acked id → Settled libs s.toStores id)
    (L := fun _ _ s l => consumerAssertion libs s.toStores l) ?_ ?_ ?_ ?_
  · exact fun id hid => absurd hid.1 (Nat.not_lt_zero id)
  · rintro i l rfl; trivial
  · intro t s loc i e s' l' _ hsettled hl hs
    generalize loc i = l at hl hs
    cases hs with
    | worker h => exact h.settles hsettled hl
    | escape _ => exact ⟨hsettled, trivial⟩
    | stop => exact ⟨hsettled, trivial⟩
    | outside h =>
      refine ⟨fun id hid => ?_, consumerAssertion_mono h.grows hl⟩
      exact (hsettled id ((ConsumerGroup.acked_congr h.delivered h.pending id).mp hid)).mono h.grows
  · exact fun t s loc i e s' l' j _ _ _ hs _ hj => consumerAssertion_mono hs.grows hj

/-! ### One delivery -/

/-- The worker `i` has taken the entry and has not finished it. -/
def Inside (i : ι) (t : List (ι × Occurrence)) : Prop :=
  ∀ e, (i, e) ∈ t → e.ofHandling = true ∨ e = .outside

/-- The steps of `handle_message` that the worker `i` has made. -/
def stepsOf (i : ι) (t : List (ι × Occurrence)) : ℕ :=
  t.countP (fun x => x.1 = i ∧ x.2.ofHandling = true)

/-- Where a delivery stands after some of its steps. -/
structure Underway (settings : ι → WorkerSettings) (i : ι) (id : ℕ) (due : Prop)
    (t : List (ι × Occurrence)) (c : Config ι (Shared ι) (Except PyError Local)) : Prop where
  handling : ∃ next queue fields h, c.loc i = .ok (.handling next queue id fields h) ∧
    stepsOf i t + h.remaining ≤ 6 ∧ (due → h = .returned → c.shared.stream.Acked id)
  due : due → c.shared.stream.Due (settings i).maxDeliveryAttempts id

omit [DecidableEq ι] in
/-- A step of `handle_message` that returns has acknowledged an entry that was due. -/
theorem acked_of_due {settings : WorkerSettings} {id : ℕ} {fields : Fields} {h : Handling}
    {s s' : Stores} (ha : advance libs settings id fields h s = .ok (.returned, s'))
    (hne : h ≠ .returned) (hd : s.stream.Due settings.maxDeliveryAttempts id) :
    s'.stream.Acked id := by
  have hcases := advance_cases ha
  cases h with
  | received => obtain ⟨-, ⟨event, -, h⟩ | ⟨e, -, -, h⟩⟩ := hcases <;> cases h
  | processing event => rcases hcases with ⟨db, -, h, -⟩ | ⟨e, -, -, h, -⟩ <;> cases h
  | failed error =>
    obtain ⟨rfl, ⟨-, h⟩ | ⟨hlt, -⟩⟩ := hcases
    · cases h
    -- with attempts left, a due entry is one that somebody else has acknowledged
    · rcases hd with hd | ⟨times, hle, ht⟩
      · exact hd
      · rw [deliveryAttempts, ht] at hlt
        exact absurd hle (not_le.mpr hlt)
  | settling | discarding =>
    rw [hcases.2]
    exact ConsumerGroup.acked_ack.mpr (Or.inr ⟨rfl, hd.delivered⟩)
  | invalidating | deadLettering _ _ => cases hcases.1
  | recording error attempts => cases hcases.2.1
  | returned => exact absurd rfl hne

theorem stepsOf_concat (i j : ι) (t : List (ι × Occurrence)) (e : Occurrence) :
    stepsOf i (t ++ [(j, e)]) = stepsOf i t + if j = i ∧ e.ofHandling = true then 1 else 0 := by
  simp [stepsOf, List.countP_append, List.countP_singleton]

/-- A delivery makes at most six steps, and one that is due does not return without an
    acknowledgement. -/
theorem underway (i : ι) (due : Prop) {d c : Config ι (Shared ι) (Except PyError Local)}
    {t : List (ι × Occurrence)} {next : Poll} {queue : List (ℕ × Fields)} {id : ℕ}
    {fields : Fields} (h : Steps (consumers libs settings) d t c)
    (hstart : d.loc i = .ok (.handling next queue id fields .received))
    (hdue : due → d.shared.stream.Due (settings i).maxDeliveryAttempts id) (hin : Inside i t) :
    Underway settings i id due t c := by
  refine h.induct (p := fun t c => Inside i t → Underway settings i id due t c) ?_ ?_ hin
  · exact fun _ => ⟨⟨next, queue, fields, .received, hstart, le_rfl, fun _ h => by cases h⟩, hdue⟩
  intro t s loc j e s' l' _ ih hs hin
  obtain ⟨⟨next, queue, fields, h, hloc, hsteps, hacked⟩, hdue⟩ :=
    ih (fun e he => hin e (List.mem_append_left _ he))
  have hkeep : due → h = .returned → s'.stream.Acked id :=
    fun hd hr => ConsumerStep.acked hs (hacked hd hr)
  refine ⟨?_, fun hd => ConsumerStep.due hs (hdue hd)⟩
  by_cases hj : j = i
  · subst hj
    have hkind := hin e (List.mem_append_right _ (List.mem_singleton_self _))
    have hloc : loc j = .ok (.handling next queue id fields h) := hloc
    rw [hloc] at hs
    generalize hl : Except.ok (Local.handling next queue id fields h) = l at hs
    cases hs with
    | worker hw =>
      cases hl
      cases hw with
      | @advance _ _ _ _ _ h' _ hne ha =>
        refine ⟨next, queue, fields, h', by simp, ?_, ?_⟩
        · have := advance_remaining ha hne
          rw [stepsOf_concat, if_pos ⟨rfl, rfl⟩]
          omega
        · rintro hd rfl
          exact acked_of_due ha hne (hdue hd)
      | finish => simp [Occurrence.ofHandling] at hkind
    | escape _ => simp [Occurrence.ofHandling] at hkind
    | stop => simp [Occurrence.ofHandling] at hkind
    | outside ho =>
      refine ⟨next, queue, fields, h, by simp [hl], ?_, hkeep⟩
      rw [stepsOf_concat, if_neg (by simp [Occurrence.ofHandling])]
      exact hsteps
  · refine ⟨next, queue, fields, h, by simpa [Function.update_of_ne (Ne.symm hj)] using hloc, ?_,
      hkeep⟩
    rw [stepsOf_concat, if_neg (fun h => hj h.1)]
    exact hsteps

/-! ### The condition -/

/-- What is asked of a run: no error escapes from `handle_message`; every delivery ends within six
    steps of its worker; a delivery of an entry whose count has reached the maximum ends with the
    entry acknowledged; and what is acknowledged is processed or dead-lettered in both places. -/
structure Handled (libs : Libraries) (settings : ι → WorkerSettings) (t : List (ι × Occurrence))
    (c : Config ι (Shared ι) (Except PyError Local)) : Prop where
  returns : ∀ i id h error, (i, .escaped id h error) ∉ t
  ends : ∀ t₁ t₂ d i id, t = t₁ ++ (i, .worker (.taken id)) :: t₂ →
    Run (consumers libs settings) t₁ d →
    Steps (consumers libs settings) d ((i, .worker (.taken id)) :: t₂) c → Inside i t₂ →
    stepsOf i t₂ ≤ 6
  acknowledged : ∀ t₁ t₂ d i id,
    t = t₁ ++ (i, .worker (.taken id)) :: (t₂ ++ [(i, .worker (.finished id))]) →
    Run (consumers libs settings) t₁ d →
    Steps (consumers libs settings) d
      ((i, .worker (.taken id)) :: (t₂ ++ [(i, .worker (.finished id))])) c → Inside i t₂ →
    d.shared.stream.Due (settings i).maxDeliveryAttempts id → c.shared.stream.Acked id
  settled : ∀ id, c.shared.stream.Acked id → Settled libs c.shared.toStores id

omit [DecidableEq ι] in
/-- A worker that takes an entry starts to handle it. -/
theorem ConsumerStep.taken {id : ℕ} (h : ConsumerStep libs settings i s l (.worker (.taken id)) s' l') :
    s' = s ∧ ∃ next queue fields, l' = .ok (.handling next queue id fields .received) := by
  cases h with
  | worker h => cases h with
    | take next id fields queue => exact ⟨rfl, next, queue, fields, rfl⟩

omit [DecidableEq ι] in
theorem ConsumerStep.finished {id : ℕ}
    (h : ConsumerStep libs settings i s l (.worker (.finished id)) s' l') :
    s' = s ∧ ∃ next queue fields, l = .ok (.handling next queue id fields .returned) := by
  cases h with
  | worker h => cases h with
    | finish next queue id fields => exact ⟨rfl, next, queue, fields, rfl⟩

omit [DecidableEq ι] in
/-- A step of a worker that is not an escape found digestible stores. -/
theorem ConsumerStep.digests (h : ConsumerStep libs settings i s l e s' l')
    (hne : ∀ id h error, e ≠ .escaped id h error) : Digests libs s l e := by
  rintro hof next queue id fields h₀ rfl
  cases h with
  | worker h => cases h with
    | advance _ ha =>
      by_contra hd
      obtain ⟨error, herror⟩ := (advance_escapes (settings i) _).mpr hd
      rw [herror] at ha
      cases ha
    | finish => trivial
  | escape _ => exact absurd rfl (hne _ _ _)
  | stop => cases hof
  | outside _ => cases hof

omit [DecidableEq ι] in
theorem ConsumerStep.not_escaped {id : ℕ} {h₀ : Handling} {error : PyError}
    (h : ConsumerStep libs settings i s l (.escaped id h₀ error) s' l') :
    ¬ Digests libs s l (.escaped id h₀ error) := by
  cases h with
  | escape ha =>
    exact fun hd => (advance_escapes (settings i) _).mp ⟨error, ha⟩ (hd rfl _ _ _ _ _ rfl)

/-- A run from which no error escapes meets the condition. -/
theorem digesting_of_returns {t : List (ι × Occurrence)}
    {c : Config ι (Shared ι) (Except PyError Local)} (h : Run (consumers libs settings) t c)
    (hr : ∀ i id h error, (i, .escaped id h error) ∉ t) : Run (digestingConsumers libs settings) t c := by
  refine h.restrict ?_
  rintro t₁ i e t₂ s loc s' l' rfl - hstep -
  refine ConsumerStep.digests hstep ?_
  rintro id h₀ error rfl
  exact hr i id h₀ error (List.mem_append_right _ (List.mem_cons_self ..))

/-- POISON: a run handles every message, returning from each delivery and settling what is due,
    exactly if every step of `handle_message` found digestible stores. -/
theorem messages_handled_iff {t : List (ι × Occurrence)}
    {c : Config ι (Shared ι) (Except PyError Local)} (h : Run (consumers libs settings) t c) :
    Handled libs settings t c ↔ Run (digestingConsumers libs settings) t c := by
  refine ⟨fun hh => digesting_of_returns h hh.returns, fun hr => ?_⟩
  refine ⟨?_, ?_, ?_, (consumers_settle h).1⟩
  · intro i id h₀ error hmem
    obtain ⟨t₁, t₂, rfl⟩ := List.append_of_mem hmem
    rw [List.append_cons] at hr
    obtain ⟨d, hd, -⟩ := hr.split
    obtain ⟨s, loc, s', l', -, ⟨hstep, hdigests⟩, -⟩ := hd.exists_before
    exact ConsumerStep.not_escaped hstep hdigests
  · rintro t₁ t₂ d i id rfl - hsteps hin
    obtain ⟨s, l', hstep, hrest⟩ := hsteps.exists_after
    obtain ⟨rfl, next, queue, fields, rfl⟩ := ConsumerStep.taken hstep
    obtain ⟨⟨_, _, _, _, -, hle, -⟩, -⟩ := underway i False hrest
      (Function.update_self ..) False.elim hin
    omega
  · rintro t₁ t₂ d i id rfl - hsteps hin hdue
    obtain ⟨s, l', hstep, hrest⟩ := hsteps.exists_after
    obtain ⟨rfl, next, queue, fields, rfl⟩ := ConsumerStep.taken hstep
    obtain ⟨s, loc, s', l', hrest, hlast, rfl⟩ := hrest.exists_before
    obtain ⟨rfl, _, _, _, hfinish⟩ := ConsumerStep.finished hlast
    obtain ⟨⟨_, _, _, h₀, hloc, -, hacked⟩, -⟩ := underway i
      (d.shared.stream.Due (settings i).maxDeliveryAttempts id) hrest (Function.update_self ..)
      (fun hd => hd) hin
    cases hfinish.symm.trans hloc
    exact hacked hdue rfl

end

/-! ### One worker and one message -/

section
variable {libs : Libraries} {settings : WorkerSettings} {fields : Fields}

/-- The stores after the first read of the only entry of the stream. -/
def deliveredOnce (fields : Fields) : Shared Unit :=
  { Shared.init Unit with stream := (ConsumerGroup.empty.add fields).readGroup pollCount }

/-- A worker alone takes the entry that somebody has added. -/
theorem taken_run (libs : Libraries) (settings : WorkerSettings) (fields : Fields) :
    Run (consumers libs (fun _ : Unit => settings))
      [((), .outside), ((), .worker .started), ((), .worker (.polled [])),
        ((), .worker (.polled [0])), ((), .worker (.taken 0))]
      ⟨deliveredOnce fields, fun _ => .ok (.handling .measure [] 0 fields .received)⟩ := by
  have hstart : Run (consumers libs (fun _ : Unit => settings)) []
      ⟨Shared.init Unit, fun _ => .ok .idle⟩ := ⟨⟨_, _⟩, ⟨rfl, fun _ => rfl⟩, .refl _⟩
  have hadd : Outside (Shared.init Unit)
      { Shared.init Unit with stream := ConsumerGroup.empty.add fields } := ⟨add_grows _, rfl, rfl⟩
  have hadded := hstart.snoc_single (.outside hadd)
  have hstarted := hadded.snoc_single (.worker (.start _))
  have hclaimed := hstarted.snoc_single (.worker (.claim _ (fun _ => false)))
  have hread := hclaimed.snoc_single (.worker (.read _))
  exact hread.snoc_single (.worker (.take _ _ 0 fields []))

/-- The steps of `handle_message` with nobody in between are steps of the worker, in every program
    that lets it make them. -/
theorem handling_run {P : Program Unit (Shared Unit) (Except PyError Local) Occurrence}
    (hP : ∀ {s l e s' l'}, WorkerStep libs settings s l e s' l' →
      P.step () s (.ok l) (.worker e) s' (.ok l'))
    {next : Poll} {queue : List (ℕ × Fields)} {id : ℕ} {h' : Handling} {stores : Stores} :
    ∀ (n : ℕ) {t : List (Unit × Occurrence)} {s : Shared Unit} {h : Handling},
    Run P t ⟨s, fun _ => .ok (.handling next queue id fields h)⟩ →
    advanceTimes libs settings id fields n h s.toStores = .ok (h', stores) →
    ∃ t', Inside () t' ∧ Run P (t ++ t')
      ⟨{ s with toStores := stores }, fun _ => .ok (.handling next queue id fields h')⟩ := by
  intro n
  induction n with
  | zero =>
    intro t s h hrun ha
    cases ha
    exact ⟨[], fun _ h => (List.not_mem_nil h).elim, by simpa using hrun⟩
  | succ n ih =>
    intro t s h hrun ha
    obtain ⟨⟨h₁, s₁⟩, ha₁, ha⟩ := bind_eq_ok.mp ha
    by_cases hne : h = .returned
    · subst hne
      cases ha₁
      exact ih hrun ha
    · obtain ⟨t', hin, hrun'⟩ := ih (hrun.snoc_single (hP (.advance hne ha₁))) ha
      refine ⟨((), .worker (.advanced id h h₁)) :: t', ?_, by simpa using hrun'⟩
      intro e he
      rcases List.mem_cons.mp he with he | he
      · cases he; exact Or.inl rfl
      · exact hin e he

end

/-- The announcement of a batch that is not stored, as the relay writes them. -/
def missingEvent : OutboxEventRecord := outboxEvent 5 (uniformId 3) "request" olderBatch

theorem missingEvent_escapes (s : Stores)
    (hnew : uniformId 3 ∉ s.db.processedEvents.keys)
    (hmissing : uniformId 1 ∉ s.db.telemetryBatches.keys) :
    ¬ Digestible Libraries.canonical (publishFields missingEvent) s
      (.processing (queueEvent missingEvent)) := by
  intro hd
  obtain ⟨batchId, record, hid, hrecord, -⟩ := hd hnew rfl
  have hbatch : batchId = uniformId 1 :=
    Option.some.inj (hid.symm.trans (UUID.parse_str (uniformId 1)))
  rw [hbatch, Table.find?_eq_none_iff.mpr hmissing] at hrecord
  cases hrecord

theorem decodeEvent_missingEvent : decodeEvent Libraries.canonical (publishFields missingEvent) =
    .ok (queueEvent missingEvent) :=
  decodeEvent_publishFields _ (by simp [missingEvent, outboxEvent, eventPayload])

/-- The worker that reads this announcement is stopped by it. -/
theorem missing_batch_stops_worker : ∃ t c,
    Run (consumers Libraries.canonical (fun _ : Unit => smallSettings)) t c ∧
      (∃ e, c.loc () = .error e) ∧
      ¬ Handled Libraries.canonical (fun _ : Unit => smallSettings) t c := by
  have hfirst : advanceTimes Libraries.canonical smallSettings 0 (publishFields missingEvent) 1
      .received (deliveredOnce (publishFields missingEvent)).toStores =
      .ok (.processing (queueEvent missingEvent),
        (deliveredOnce (publishFields missingEvent)).toStores) := by
    simp [advanceTimes, advance, decodeEvent_missingEvent, Except.map, tryBlock, Except.bind]
  obtain ⟨t, -, hrun⟩ := handling_run (P := consumers Libraries.canonical _) ConsumerStep.worker 1
    (taken_run Libraries.canonical smallSettings (publishFields missingEvent)) hfirst
  obtain ⟨e, he⟩ := (advance_escapes smallSettings 0).mpr (missingEvent_escapes
    (deliveredOnce (publishFields missingEvent)).toStores List.not_mem_nil List.not_mem_nil)
  refine ⟨_, _, hrun.snoc_single (.escape he), ⟨e, rfl⟩, fun hh => ?_⟩
  exact hh.returns () 0 _ e (List.mem_append_right _ (List.mem_singleton_self _))

/-- One delivery and no more. -/
def onceSettings : WorkerSettings :=
  { smallSettings with maxDeliveryAttempts := 1, attempts_pos := le_rfl }

/-- An entry without any field, on its last delivery: it is dead-lettered and acknowledged. -/
theorem messages_handled_iff_empty : ∃ t c,
    Run (consumers Libraries.canonical (fun _ : Unit => onceSettings)) t c ∧
      Handled Libraries.canonical (fun _ : Unit => onceSettings) t c ∧
      c.shared.stream.Acked 0 ∧ DeadLettered c.shared.toStores 0 := by
  have hcheck : (handleMessage Libraries.canonical onceSettings 0 []
      (deliveredOnce []).toStores).toOption.any (fun r => decide (r.2.stream.Acked 0 ∧
        ∃ entry ∈ r.2.deadLetters, entry.sourceId = 0)) = true := by decide +kernel
  cases hm : handleMessage Libraries.canonical onceSettings 0 [] (deliveredOnce []).toStores with
  | error e => rw [hm] at hcheck; cases hcheck
  | ok r =>
    obtain ⟨h, stores⟩ := r
    rw [hm] at hcheck
    obtain ⟨hacked, hdead⟩ := of_decide_eq_true hcheck
    obtain rfl := handleMessage_returned hm
    obtain ⟨t, hin, hrun⟩ := handling_run (P := consumers Libraries.canonical _) ConsumerStep.worker 6
      (taken_run Libraries.canonical onceSettings []) hm
    -- the worker goes on with its loop
    have hfinished := hrun.snoc_single (.worker (.finish ..))
    refine ⟨_, _, hfinished, (messages_handled_iff hfinished).mpr
      (digesting_of_returns hfinished ?_), hacked, hdead⟩
    intro i id h₀ error hmem
    rcases List.mem_append.mp hmem with hmem | hmem
    · rcases List.mem_append.mp hmem with hmem | hmem
      · simp at hmem
      · rcases hin _ hmem with h | h <;> simp [Occurrence.ofHandling] at h
    · simp at hmem

end FleetPulse
