import FleetPulse.Lib.LastWrite
import FleetPulse.Pipeline.EndToEnd

/-! What the workers compute, as one sequential program.

    `Fleet` is the purpose of the workers without tables, streams or retries: the latest state of
    every agent and the incidents that were opened. A batch sets the state of its agent, and opens an
    incident for each condition that has reached its threshold unless one is open.
    `processing_exactly_once` says that at every moment of every run the tables are what this program
    makes of the batches behind `processed_events`, one after another in commit order. -/

namespace FleetPulse
open Values Interleaving

/-! ### The sequential program -/

structure Fleet where
  state : String → Option FleetStateRecord
  incidents : List IncidentRecord

namespace Fleet

def empty : Fleet := ⟨fun _ => none, []⟩

/-- The agent has an open incident of the type. -/
def HasOpen (incidents : List IncidentRecord) (agentId incidentType : String) : Prop :=
  ∃ r ∈ incidents, r.agentId = agentId ∧ r.incidentType = incidentType ∧ r.status = "open"

instance (incidents : List IncidentRecord) (agentId incidentType : String) :
    Decidable (HasOpen incidents agentId incidentType) := by
  unfold HasOpen; infer_instance

/-- The sample that was observed last, the first one where several were. -/
def newest (samples : List TelemetrySample) : Option TelemetrySample :=
  samples.find? (fun sample => samples.all (fun other =>
    decide (other.observedAt.instant ≤ sample.observedAt.instant)))

/-- The highest of the percentages. -/
def highest (percents : List PyFloat) : Option PyFloat :=
  percents.find? (fun percent => percents.all (fun other => other.le percent))

/-- What a batch says about its agent: the values of the newest sample, with the fullest disk. -/
def stateOf (batch : TelemetryBatch) : Option FleetStateRecord :=
  (newest batch.samples).bind (fun sample =>
    (highest (sample.disks.map DiskTelemetry.usedPercent)).map (fun percent =>
      { agentId := batch.agentId
        lastBatchId := batch.batchId
        observedAt := sample.observedAt.instant
        cpuPercent := sample.cpuPercent
        memoryPercent := sample.memory.usedPercent
        diskPercent := percent }))

/-- An incident of the type, with its evidence. -/
def incident (batch : TelemetryBatch) (incidentType : String) (value threshold : PyFloat) :
    IncidentRecord where
  agentId := batch.agentId
  incidentType := incidentType
  deduplicationKey := batch.agentId ++ ":" ++ incidentType
  status := "open"
  severity := "warning"
  summary := incidentType ++ " threshold crossed"
  evidence := { batchId := batch.batchId.str, value, threshold }

/-- From its threshold on a value opens an incident, unless the agent has an open one of the type. -/
def openIncident (batch : TelemetryBatch) (incidentType : String) (value threshold : PyFloat)
    (incidents : List IncidentRecord) : List IncidentRecord :=
  if threshold.le value = true ∧ ¬ HasOpen incidents batch.agentId incidentType then
    incidents ++ [incident batch incidentType value threshold]
  else incidents

/-- CPU first, then memory. -/
def openIncidents (thresholds : PyFloat × PyFloat) (batch : TelemetryBatch)
    (sample : TelemetrySample) (incidents : List IncidentRecord) : List IncidentRecord :=
  openIncident batch "high_memory" sample.memory.usedPercent thresholds.2
    (openIncident batch "high_cpu" sample.cpuPercent thresholds.1 incidents)

/-- The sequential effect of a batch. -/
def apply (thresholds : PyFloat × PyFloat) (fleet : Fleet) (batch : TelemetryBatch) : Fleet where
  state := Function.update fleet.state batch.agentId (stateOf batch)
  incidents := (newest batch.samples).elim fleet.incidents
    (fun sample => openIncidents thresholds batch sample fleet.incidents)

/-- The batches one after another, from nothing. -/
def replay (thresholds : PyFloat × PyFloat) (batches : List TelemetryBatch) : Fleet :=
  batches.foldl (apply thresholds) empty

/-- The tables as a fleet. -/
def ofDatabase (db : Database) : Fleet := ⟨db.fleetState.find?, db.incidents.rows⟩

theorem replay_concat (thresholds : PyFloat × PyFloat) (batches : List TelemetryBatch)
    (batch : TelemetryBatch) :
    replay thresholds (batches ++ [batch]) = apply thresholds (replay thresholds batches) batch := by
  rw [replay, List.foldl_append]; rfl

/-- `process_event` goes by the newest sample of the batch. -/
theorem newest_samples (batch : TelemetryBatch) : newest batch.samples = some (latest batch) := by
  rw [← latestSample_eq]
  exact (pyMax_key (fun sample : TelemetrySample => sample.observedAt.instant) _).symm

theorem highest_disks (batch : TelemetryBatch) :
    highest ((latest batch).disks.map DiskTelemetry.usedPercent) = some (diskPercent batch) := by
  rw [← maxDiskPercent_eq]
  refine (pyMax_finite fun percent hpercent => ?_).symm
  obtain ⟨disk, hdisk, rfl⟩ := List.mem_map.mp hpercent
  have hvalid := batch.sample_valid _ (latest_mem batch)
  simp only [TelemetrySample.valid, Bool.and_eq_true, List.all_eq_true] at hvalid
  exact DiskTelemetry.finite_of_valid (hvalid.1.1.1.2.2 disk hdisk)

/-- The row that `process_event` writes is the state of the sequential program. -/
theorem stateOf_eq (batch : TelemetryBatch) : stateOf batch = some (fleetStateOf batch) := by
  rw [stateOf, newest_samples, Option.bind_some, highest_disks, Option.map_some]
  rfl

theorem apply_incidents (thresholds : PyFloat × PyFloat) (fleet : Fleet) (batch : TelemetryBatch) :
    (apply thresholds fleet batch).incidents =
      openIncidents thresholds batch (latest batch) fleet.incidents := by
  rw [apply, newest_samples]
  rfl

/-- The state of an agent is what the last batch of that agent made it. -/
theorem replay_state (thresholds : PyFloat × PyFloat) (batches : List TelemetryBatch) :
    (replay thresholds batches).state =
      fun agentId => (LastWrite.last TelemetryBatch.agentId agentId batches).map fleetStateOf := by
  rw [← LastWrite.foldl_update]
  induction batches using List.reverseRecOn with
  | nil => rfl
  | append_singleton batches batch ih =>
    rw [replay_concat, List.foldl_append, ← ih, apply, stateOf_eq]; rfl

end Fleet

/-! ### One event -/

/-- What every incident row looks like. -/
def IncidentsTyped (incidents : List IncidentRecord) : Prop :=
  ∀ r ∈ incidents, r.status = "open" ∧ r.deduplicationKey = r.agentId ++ ":" ++ r.incidentType ∧
    (r.incidentType = "high_cpu" ∨ r.incidentType = "high_memory")

/-- The deduplication key tells agent and type apart. -/
theorem deduplicationKey_inj {a a' t t' : String} (ht : t = "high_cpu" ∨ t = "high_memory")
    (ht' : t' = "high_cpu" ∨ t' = "high_memory") (h : a ++ ":" ++ t = a' ++ ":" ++ t') :
    a = a' ∧ t = t' := by
  have hlist := congrArg String.toList h
  have hlast := congrArg List.getLast? hlist
  simp only [String.toList_append, List.getLast?_append] at hlist hlast
  -- the two types end in different letters
  rcases ht with rfl | rfl <;> rcases ht' with rfl | rfl
  · exact ⟨String.toList_inj.mp (List.append_cancel_right (List.append_cancel_right hlist)), rfl⟩
  · simp at hlast
  · simp at hlast
  · exact ⟨String.toList_inj.mp (List.append_cancel_right (List.append_cancel_right hlist)), rfl⟩

/-- The conflict clause fires exactly when the agent has an open incident of the type. -/
theorem hasOpen_iff {incidents : Table IncidentRecord.uniqueKey} (hi : IncidentsTyped incidents.rows)
    (batch : TelemetryBatch) {incidentType : String} (value threshold : PyFloat)
    (ht : incidentType = "high_cpu" ∨ incidentType = "high_memory") :
    Fleet.HasOpen incidents.rows batch.agentId incidentType ↔
      (incidentRecord batch incidentType value threshold).uniqueKey ∈ incidents.keys := by
  rw [Table.mem_keys]
  constructor
  · rintro ⟨r, hr, hagent, htype, hstatus⟩
    obtain ⟨-, hkey, -⟩ := hi r hr
    exact ⟨r, hr, by rw [IncidentRecord.uniqueKey, hkey, hagent, htype, hstatus]; rfl⟩
  · rintro ⟨r, hr, hkey⟩
    obtain ⟨hstatus, hdedup, htype⟩ := hi r hr
    have heq : r.agentId ++ ":" ++ r.incidentType = batch.agentId ++ ":" ++ incidentType := by
      rw [← hdedup]; exact congrArg Prod.fst hkey
    obtain ⟨hagent, hsame⟩ := deduplicationKey_inj htype ht heq
    exact ⟨r, hr, hagent, hsame, hstatus⟩

/-- The statement for one condition does to the table what the sequential program does. -/
theorem openIncident_refines {batch : TelemetryBatch}
    {incidents incidents' : Table IncidentRecord.uniqueKey} {incidentType : String}
    {value threshold : PyFloat} (hi : IncidentsTyped incidents.rows)
    (ht : incidentType = "high_cpu" ∨ incidentType = "high_memory")
    (h : openIncident batch incidents (incidentType, value, threshold) = .ok incidents') :
    incidents'.rows =
      Fleet.openIncident batch incidentType value threshold incidents.rows ∧
      IncidentsTyped incidents'.rows := by
  have hopen := hasOpen_iff hi batch value threshold ht
  unfold openIncident at h
  unfold Fleet.openIncident
  split at h
  · next hle =>
    obtain ⟨_, -, h⟩ := bind_eq_ok.mp h
    cases h
    rcases incidents.insertOrIgnore_cases (incidentRecord batch incidentType value threshold) with
      ⟨hmem, hrows, -⟩ | ⟨hmem, hrows, -⟩
    · rw [hrows, if_neg (fun hc => hc.2 (hopen.mpr hmem))]
      exact ⟨rfl, hi⟩
    · rw [hrows, if_pos ⟨hle, fun hc => hmem (hopen.mp hc)⟩]
      refine ⟨rfl, fun r hr => ?_⟩
      rcases List.mem_append.mp hr with hr | hr
      · exact hi r hr
      · rw [List.mem_singleton.mp hr]; exact ⟨rfl, rfl, ht⟩
  · next hle =>
    cases h
    rw [if_neg (fun hc => hle hc.1)]
    exact ⟨rfl, hi⟩

/-- So do the statements for both conditions of a sample. -/
theorem openIncidents_refine {thresholds : PyFloat × PyFloat} {batch : TelemetryBatch}
    {sample : TelemetrySample} {incidents incidents' : Table IncidentRecord.uniqueKey}
    (hi : IncidentsTyped incidents.rows)
    (h : (conditions thresholds sample).foldlM (openIncident batch) incidents = .ok incidents') :
    incidents'.rows = Fleet.openIncidents thresholds batch sample incidents.rows ∧
      IncidentsTyped incidents'.rows := by
  rw [conditions, List.foldlM_cons] at h
  obtain ⟨incidents₁, h₁, h⟩ := bind_eq_ok.mp h
  rw [List.foldlM_cons] at h
  obtain ⟨incidents₂, h₂, h⟩ := bind_eq_ok.mp h
  cases h
  obtain ⟨hrows₁, hi₁⟩ := openIncident_refines hi (.inl rfl) h₁
  obtain ⟨hrows₂, hi₂⟩ := openIncident_refines hi₁ (.inr rfl) h₂
  rw [hrows₂, hrows₁]
  exact ⟨rfl, hrows₁ ▸ hrows₂ ▸ hi₂⟩

/-- The upsert replaces the row of its agent. -/
theorem find?_upsertFleetState (row : FleetStateRecord)
    (fleetState : Table FleetStateRecord.agentId) :
    (upsertFleetState row fleetState).find? =
      Function.update fleetState.find? row.agentId (some row) := by
  funext agentId
  rw [upsertFleetState, Table.find?_upsert]
  by_cases h : agentId = row.agentId
  · subst h
    rw [if_pos rfl, Function.update_self]
    cases hf : fleetState.find? row.agentId with
    | none => rfl
    | some r =>
      have hr := Table.key_of_find? hf
      simp only [Option.map_some, Option.getD_some, hr]
  · rw [if_neg h, Function.update_of_ne h]

/-! ### The batches behind processed_events -/

/-- The batch of an event: the one that its outbox row names. -/
def eventBatch (libs : Libraries) (db : Database) (eventId : UUID) : Option TelemetryBatch :=
  (db.outboxEvents.find? eventId).bind (fun row => (storedBatch libs row.aggregateId db).toOption)

/-- The batches of `processed_events`, in commit order. -/
def processedBatches (libs : Libraries) (db : Database) : List TelemetryBatch :=
  db.processedEvents.rows.filterMap (fun r => eventBatch libs db r.eventId)

/-- Every processed event has its batch. -/
def Backed (libs : Libraries) (db : Database) : Prop :=
  ∀ r ∈ db.processedEvents.rows, (eventBatch libs db r.eventId).isSome

section
variable {libs : Libraries} {s s' : Stores}

theorem storedBatch_mono (hg : Grows s s') {aggregateId : String} {batch : TelemetryBatch}
    (h : storedBatch libs aggregateId s.db = .ok batch) :
    storedBatch libs aggregateId s'.db = .ok batch := by
  obtain ⟨batchId, record, hid, hfind, hvalidate⟩ := storedBatch_eq_ok.mp h
  exact storedBatch_eq_ok.mpr ⟨batchId, record, hid, hg.find?_telemetryBatches hfind, hvalidate⟩

/-- The batch of an event never changes. -/
theorem eventBatch_mono (hg : Grows s s') {eventId : UUID} {batch : TelemetryBatch}
    (h : eventBatch libs s.db eventId = some batch) :
    eventBatch libs s'.db eventId = some batch := by
  obtain ⟨row, hrow, hbatch⟩ := Option.bind_eq_some_iff.mp h
  obtain ⟨hmem, hid⟩ := Table.find?_eq_some_iff.mp hrow
  obtain ⟨row', hmem', hsame⟩ := hg.outboxEvent hmem
  have hid' : row'.eventId = eventId := (OutboxEventRecord.eventId_eq hsame).trans hid
  refine Option.bind_eq_some_iff.mpr ⟨row', Table.find?_eq_some_iff.mpr ⟨hmem', hid'⟩, ?_⟩
  cases hstored : storedBatch libs row.aggregateId s.db with
  | error e => rw [hstored] at hbatch; cases hbatch
  | ok b =>
    rw [hstored] at hbatch
    rw [OutboxEventRecord.aggregateId_eq hsame, storedBatch_mono hg hstored]
    exact hbatch

theorem eventBatch_congr (hg : Grows s s') (hb : Backed libs s.db)
    {r : ProcessedEventRecord} (hr : r ∈ s.db.processedEvents.rows) :
    eventBatch libs s'.db r.eventId = eventBatch libs s.db r.eventId := by
  obtain ⟨batch, hbatch⟩ := Option.isSome_iff_exists.mp (hb r hr)
  rw [hbatch, eventBatch_mono hg hbatch]

/-- The batches behind the events processed so far stay, in their order. -/
theorem processedBatches_mono (hg : Grows s s') (hb : Backed libs s.db) :
    processedBatches libs s.db <+: processedBatches libs s'.db := by
  obtain ⟨rest, hrest⟩ := hg.processedEvents
  rw [processedBatches, processedBatches, ← hrest, List.filterMap_append,
    List.filterMap_congr (fun r hr => eventBatch_congr hg hb hr)]
  exact List.prefix_append _ _

/-- Nothing is processed: the batches and their backing are the same. -/
theorem processedBatches_same (hg : Grows s s') (hb : Backed libs s.db)
    (hsame : s'.db.processedEvents = s.db.processedEvents) :
    processedBatches libs s'.db = processedBatches libs s.db ∧ Backed libs s'.db := by
  refine ⟨?_, fun r hr => ?_⟩
  · rw [processedBatches, hsame]
    exact List.filterMap_congr (fun r hr => eventBatch_congr hg hb hr)
  · rw [hsame] at hr
    rw [eventBatch_congr hg hb hr]
    exact hb r hr

/-- One event is processed: its batch comes last. -/
theorem processedBatches_concat (hg : Grows s s') (hb : Backed libs s.db)
    {r : ProcessedEventRecord} {batch : TelemetryBatch}
    (hrows : s'.db.processedEvents.rows = s.db.processedEvents.rows ++ [r])
    (hbatch : eventBatch libs s'.db r.eventId = some batch) :
    processedBatches libs s'.db = processedBatches libs s.db ++ [batch] ∧ Backed libs s'.db := by
  refine ⟨?_, fun r' hr => ?_⟩
  · rw [processedBatches, hrows, List.filterMap_append,
      List.filterMap_congr (fun r hr => eventBatch_congr hg hb hr)]
    simp [hbatch, processedBatches]
  · rw [hrows] at hr
    rcases List.mem_append.mp hr with hr | hr
    · rw [eventBatch_congr hg hb hr]; exact hb r' hr
    · rw [List.mem_singleton.mp hr, hbatch]; rfl

/-- The batch that `process_event` reads is the batch of the event. -/
theorem eventBatch_of_entry (hd : Durable libs s) {id : ℕ} {fields : Fields} {event : QueueEvent}
    {batch : TelemetryBatch} (hentry : s.stream.entries[id]? = some fields)
    (hdecode : decodeEvent libs fields = .ok event)
    (hbatch : storedBatch libs event.aggregateId s.db = .ok batch) :
    eventBatch libs s.db event.eventId = some batch := by
  obtain ⟨row, hrow, rfl⟩ := hd.fed fields (List.mem_of_getElem? hentry)
  obtain ⟨_, haccepted⟩ := hd.accepted hrow
  obtain rfl : queueEvent row = event := Except.ok.inj (haccepted.decodes.symm.trans hdecode)
  obtain ⟨row', hrow', hsame⟩ := List.mem_map.mp hrow
  refine Option.bind_eq_some_iff.mpr ⟨row', Table.find?_eq_some_iff.mpr
    ⟨hrow', OutboxEventRecord.eventId_eq hsame⟩, ?_⟩
  rw [OutboxEventRecord.aggregateId_eq hsame]
  exact congrArg Except.toOption hbatch

end

/-! ### Runs -/

/-- What a step does to the tables of the workers: nothing, or it processes the batch of a new
    event. -/
theorem Step.processes {ι : Type} [DecidableEq ι] {libs : Libraries}
    {settings : ι → WorkerSettings} {s s' : Shared ι} {l l' : Local} {e : Event} {i : ι}
    (h : Step libs settings i s l e s' l') (hd : Durable libs s.toStores)
    (hl : assertion libs s.toStores l) :
    (s'.db.processedEvents = s.db.processedEvents ∧ s'.db.fleetState = s.db.fleetState ∧
      s'.db.incidents = s.db.incidents) ∨
    (∃ id event batch row, e = .advanced id (.processing event) .invalidating ∧
      event.eventId ∉ s.db.processedEvents.keys ∧
      storedBatch libs event.aggregateId s.db = .ok batch ∧
      row.eventId = event.eventId ∧ eventBatch libs s'.db row.eventId = some batch ∧
      s'.db.processedEvents.rows = s.db.processedEvents.rows ++ [row] ∧
      s'.db.fleetState = upsertFleetState (fleetStateOf batch) s.db.fleetState ∧
      (conditions (settings i).thresholds (latest batch)).foldlM (openIncident batch)
        s.db.incidents = .ok s'.db.incidents) := by
  have hg := Step.grows h
  cases h with
  | api h => cases h with
    | commit hingest =>
      left
      rcases ingestBatch_cases hingest with ⟨-, -, rfl⟩ | ⟨_, _, _, _, -, -, -, -, -, -, rfl⟩ <;>
        exact ⟨rfl, rfl, rfl⟩
    | _ => exact Or.inl ⟨rfl, rfl, rfl⟩
  | relay h => cases h <;> exact Or.inl ⟨rfl, rfl, rfl⟩
  | reader h => rw [h.frame.1]; exact Or.inl ⟨rfl, rfl, rfl⟩
  | expire => exact Or.inl ⟨rfl, rfl, rfl⟩
  | stop => exact Or.inl ⟨rfl, rfl, rfl⟩
  | worker h => cases h with
    | @advance next queue id fields hd₀ h' stores hne ha =>
      have hcases := advance_cases ha
      cases hd₀ with
      | received => rw [hcases.1]; exact Or.inl ⟨rfl, rfl, rfl⟩
      | processing event =>
        rcases hcases with ⟨db, hprocess, rfl, rfl⟩ | ⟨_, -, -, -, rfl⟩
        · rcases processEvent_cases hprocess with
            ⟨-, rfl⟩ | ⟨batch, processed, incidents, hnew, -, hbatch, hrows, hincidents, rfl⟩
          · exact Or.inl ⟨rfl, rfl, rfl⟩
          · have hevent := eventBatch_of_entry hd hl.2.1 hl.2.2 hbatch
            exact Or.inr ⟨id, event, batch, _, rfl, hnew, hbatch, rfl, eventBatch_mono hg hevent,
              hrows, rfl, hincidents⟩
        · exact Or.inl ⟨rfl, rfl, rfl⟩
      | failed _ => rw [hcases.1]; exact Or.inl ⟨rfl, rfl, rfl⟩
      | recording _ _ => rw [hcases.2.2]; exact Or.inl ⟨rfl, rfl, rfl⟩
      | deadLettering _ _ | invalidating | settling | discarding | returned =>
        rw [hcases.2]; exact Or.inl ⟨rfl, rfl, rfl⟩
    | _ => exact Or.inl ⟨rfl, rfl, rfl⟩

/-- The commit of `process_event`. -/
theorem Step.committed {ι : Type} [DecidableEq ι] {libs : Libraries} {settings : ι → WorkerSettings}
    {s s' : Shared ι} {l l' : Local} {i : ι} {id : ℕ} {event : QueueEvent}
    (h : Step libs settings i s l (.advanced id (.processing event) .invalidating) s' l') :
    processEvent libs (settings i) id event s.db = .ok s'.db := by
  cases h with
  | api h => cases h
  | relay h => cases h
  | reader h => cases h
  | worker h => cases h with
    | advance _ ha =>
      rcases advance_cases ha with ⟨db, hprocess, -, rfl⟩ | ⟨_, -, -, h, -⟩
      · exact hprocess
      · cases h

/-- The rows of `fleet_state` come from the last batches of their agents. -/
structure StateMirrors (libs : Libraries) (db : Database) : Prop where
  backed : Backed libs db
  state : db.fleetState.find? = fun agentId =>
    (LastWrite.last TelemetryBatch.agentId agentId (processedBatches libs db)).map fleetStateOf

/-- The rows of `incidents` are those of the sequential program. -/
structure IncidentsMirror (libs : Libraries) (thresholds : PyFloat × PyFloat) (db : Database) :
    Prop where
  typed : IncidentsTyped db.incidents.rows
  incidents : db.incidents.rows = (Fleet.replay thresholds (processedBatches libs db)).incidents

section
variable {ι : Type} [DecidableEq ι] {libs : Libraries} {settings : ι → WorkerSettings}
  {s s' : Shared ι} {l l' : Local} {e : Event} {i : ι}

theorem Step.stateMirrors (h : Step libs settings i s l e s' l') (hd : Durable libs s.toStores)
    (hl : assertion libs s.toStores l) (hm : StateMirrors libs s.db) : StateMirrors libs s'.db := by
  have hg := Step.grows h
  rcases Step.processes h hd hl with ⟨hprocessed, hfleet, -⟩ |
    ⟨_, _, batch, row, -, -, -, -, hevent, hrows, hfleet, -⟩
  · obtain ⟨hbatches, hbacked⟩ := processedBatches_same hg hm.backed hprocessed
    exact ⟨hbacked, by rw [hbatches, hfleet]; exact hm.state⟩
  · obtain ⟨hbatches, hbacked⟩ := processedBatches_concat hg hm.backed hrows hevent
    refine ⟨hbacked, ?_⟩
    rw [hbatches, hfleet, find?_upsertFleetState, hm.state]
    funext agentId
    rw [LastWrite.last_concat]
    by_cases hagent : batch.agentId = agentId
    · subst hagent; rw [if_pos rfl]; exact Function.update_self ..
    · rw [if_neg hagent]; exact Function.update_of_ne (Ne.symm hagent) ..

theorem Step.incidentsMirror {thresholds : PyFloat × PyFloat}
    (hequal : (settings i).thresholds = thresholds)
    (h : Step libs settings i s l e s' l') (hd : Durable libs s.toStores)
    (hl : assertion libs s.toStores l) (hb : Backed libs s.db)
    (hm : IncidentsMirror libs thresholds s.db) : IncidentsMirror libs thresholds s'.db := by
  have hg := Step.grows h
  rcases Step.processes h hd hl with ⟨hprocessed, -, hincidents⟩ |
    ⟨_, _, batch, row, -, -, -, -, hevent, hrows, -, hincidents⟩
  · obtain ⟨hbatches, -⟩ := processedBatches_same hg hb hprocessed
    exact ⟨hincidents ▸ hm.typed, by rw [hbatches, hincidents]; exact hm.incidents⟩
  · obtain ⟨hbatches, -⟩ := processedBatches_concat hg hb hrows hevent
    obtain ⟨hopened, htyped⟩ := openIncidents_refine hm.typed hincidents
    refine ⟨htyped, ?_⟩
    rw [hbatches, Fleet.replay_concat, Fleet.apply_incidents, hopened, hequal, hm.incidents]

theorem stateMirrors_run {t : List (ι × Event)} {c : Config ι (Shared ι) Local}
    (h : Run (pipeline libs settings) t c) : StateMirrors libs c.shared.db := by
  refine h.invariant (I := fun s => StateMirrors libs s.db) ⟨fun _ h => (List.not_mem_nil h).elim, rfl⟩ ?_
  intro t s loc i e s' l' hrun hm hs
  obtain ⟨hd, hl⟩ := durable_run hrun
  exact Step.stateMirrors hs hd (hl i) hm

theorem incidentsMirror_run {thresholds : PyFloat × PyFloat}
    (hequal : ∀ i, (settings i).thresholds = thresholds) {t : List (ι × Event)}
    {c : Config ι (Shared ι) Local} (h : Run (pipeline libs settings) t c) :
    IncidentsMirror libs thresholds c.shared.db := by
  refine h.invariant (I := fun s => IncidentsMirror libs thresholds s.db)
    ⟨fun _ h => (List.not_mem_nil h).elim, rfl⟩ ?_
  intro t s loc i e s' l' hrun hm hs
  obtain ⟨hd, hl⟩ := durable_run hrun
  exact Step.incidentsMirror (hequal i) hs hd (hl i) (stateMirrors_run hrun).backed hm

end

/-! ### What follows from the sequential program -/

/-- The incident names the batch, and a value of its newest sample that has reached its threshold. -/
def OpenedBy (thresholds : PyFloat × PyFloat) (batch : TelemetryBatch) (r : IncidentRecord) : Prop :=
  ∃ sample, Fleet.newest batch.samples = some sample ∧
    ((thresholds.1.le sample.cpuPercent = true ∧
        r = Fleet.incident batch "high_cpu" sample.cpuPercent thresholds.1) ∨
      (thresholds.2.le sample.memory.usedPercent = true ∧
        r = Fleet.incident batch "high_memory" sample.memory.usedPercent thresholds.2))

theorem mem_openIncident {batch : TelemetryBatch} {incidentType : String}
    {value threshold : PyFloat} {incidents : List IncidentRecord} {r : IncidentRecord}
    (h : r ∈ Fleet.openIncident batch incidentType value threshold incidents) :
    r ∈ incidents ∨
      (threshold.le value = true ∧ r = Fleet.incident batch incidentType value threshold) := by
  unfold Fleet.openIncident at h
  split at h
  · next hopen =>
    exact (List.mem_append.mp h).imp id (fun h => ⟨hopen.1, List.mem_singleton.mp h⟩)
  · exact Or.inl h

theorem mem_apply_incidents {thresholds : PyFloat × PyFloat} {fleet : Fleet}
    {batch : TelemetryBatch} {r : IncidentRecord}
    (h : r ∈ (Fleet.apply thresholds fleet batch).incidents) :
    r ∈ fleet.incidents ∨ OpenedBy thresholds batch r := by
  rw [Fleet.apply_incidents] at h
  rcases mem_openIncident h with h | hmemory
  · rcases mem_openIncident h with h | hcpu
    · exact Or.inl h
    · exact Or.inr ⟨_, Fleet.newest_samples batch, Or.inl hcpu⟩
  · exact Or.inr ⟨_, Fleet.newest_samples batch, Or.inr hmemory⟩

/-- Each incident of the sequential program was opened by one of the batches. -/
theorem opened_replay {thresholds : PyFloat × PyFloat} (batches : List TelemetryBatch) :
    ∀ r ∈ (Fleet.replay thresholds batches).incidents,
      ∃ batch ∈ batches, OpenedBy thresholds batch r := by
  induction batches using List.reverseRecOn with
  | nil => exact fun r hr => by cases hr
  | append_singleton batches batch ih =>
    intro r hr
    rw [Fleet.replay_concat] at hr
    rcases mem_apply_incidents hr with hr | hr
    · obtain ⟨b, hb, hopened⟩ := ih r hr
      exact ⟨b, List.mem_append_left _ hb, hopened⟩
    · exact ⟨batch, List.mem_append_right _ (List.mem_singleton_self _), hr⟩

/-- An agent has at most one open incident of a type. -/
theorem IncidentsTyped.unique {incidents : Table IncidentRecord.uniqueKey}
    (hi : IncidentsTyped incidents.rows) {a b : IncidentRecord} (ha : a ∈ incidents.rows)
    (hb : b ∈ incidents.rows) (hagent : a.agentId = b.agentId)
    (htype : a.incidentType = b.incidentType) : a = b := by
  obtain ⟨hstatus, hkey, -⟩ := hi a ha
  obtain ⟨hstatus', hkey', -⟩ := hi b hb
  refine incidents.eq_of_key_eq ha hb ?_
  rw [IncidentRecord.uniqueKey, IncidentRecord.uniqueKey, hkey, hkey', hstatus, hstatus', hagent,
    htype]

section
variable {ι : Type} [DecidableEq ι] {libs : Libraries} {settings : ι → WorkerSettings}

/-- EXACTLY ONCE: with equal thresholds, at every moment of every run the two tables are what the
    sequential program makes of the batches of the processed events, each once and in commit order;
    so an agent has at most one open incident of a type, and the evidence of an incident is a
    processed batch of its agent and a value of its newest sample that has reached the threshold. -/
theorem processing_exactly_once {thresholds : PyFloat × PyFloat}
    (hequal : ∀ i, (settings i).thresholds = thresholds) {t : List (ι × Event)}
    {c : Config ι (Shared ι) Local} (h : Run (pipeline libs settings) t c) :
    (∀ r ∈ c.shared.db.processedEvents.rows, ∃ batch,
      eventBatch libs c.shared.db r.eventId = some batch) ∧
    Fleet.ofDatabase c.shared.db =
      Fleet.replay thresholds (processedBatches libs c.shared.db) ∧
    (∀ a ∈ c.shared.db.incidents.rows, ∀ b ∈ c.shared.db.incidents.rows, a.status = "open" →
      b.status = "open" → a.agentId = b.agentId → a.incidentType = b.incidentType → a = b) ∧
    ∀ a ∈ c.shared.db.incidents.rows, ∃ batch ∈ processedBatches libs c.shared.db,
      ∃ sample ∈ batch.samples,
        (∀ other ∈ batch.samples, other.observedAt.instant ≤ sample.observedAt.instant) ∧
        batch.agentId = a.agentId ∧ a.evidence.batchId = batch.batchId.str ∧
        a.evidence.threshold.le a.evidence.value = true ∧
        ((a.incidentType = "high_cpu" ∧ a.evidence.value = sample.cpuPercent ∧
            a.evidence.threshold = thresholds.1) ∨
          (a.incidentType = "high_memory" ∧ a.evidence.value = sample.memory.usedPercent ∧
            a.evidence.threshold = thresholds.2)) := by
  have hstate := stateMirrors_run h
  have hincidents := incidentsMirror_run hequal h
  refine ⟨fun r hr => Option.isSome_iff_exists.mp (hstate.backed r hr), ?_,
    fun a ha b hb _ _ => hincidents.typed.unique ha hb, fun a ha => ?_⟩
  · rw [Fleet.ofDatabase, hstate.state, hincidents.incidents, ← Fleet.replay_state thresholds]
  · rw [hincidents.incidents] at ha
    obtain ⟨batch, hbatch, sample, hnewest, hopened⟩ := opened_replay _ a ha
    have hbound : ∀ other ∈ batch.samples,
        other.observedAt.instant ≤ sample.observedAt.instant := by
      simpa using List.find?_some hnewest
    refine ⟨batch, hbatch, sample, List.mem_of_find?_eq_some hnewest, hbound, ?_⟩
    rcases hopened with ⟨hle, rfl⟩ | ⟨hle, rfl⟩
    · exact ⟨rfl, rfl, hle, Or.inl ⟨rfl, rfl, rfl⟩⟩
    · exact ⟨rfl, rfl, hle, Or.inr ⟨rfl, rfl, rfl⟩⟩

end

/-- One worker processes two batches of an agent; the first opened an incident. -/
theorem processing_exactly_once_two :
    ∃ t c, Run (pipeline Libraries.canonical (fun _ : Unit => smallSettings)) t c ∧
      c.shared.db.incidents.rows.length = 1 ∧
      processedBatches Libraries.canonical c.shared.db = [olderBatch, newerBatch] ∧
      Fleet.ofDatabase c.shared.db =
        Fleet.replay smallSettings.thresholds [olderBatch, newerBatch] := by
  have hrun : (schedule Libraries.canonical (fun _ : Unit => smallSettings)
      ((ingestActions olderBatch 5 (uniformId 3) ++ ingestActions newerBatch 6 (uniformId 4) ++
        publishActions [outboxEvent 5 (uniformId 3) "request" olderBatch,
          outboxEvent 6 (uniformId 4) "request" newerBatch] ++ readActions ++ handleActions ++
        handleActions).map (fun a => ((), a))) [] (initial Unit)).any
      (fun r => decide (r.2.shared.db.incidents.rows.length = 1 ∧
        processedBatches Libraries.canonical r.2.shared.db = [olderBatch, newerBatch])) = true := by
    decide +kernel
  obtain ⟨t, c, hrun, hcheck⟩ := exists_run hrun
  obtain ⟨hlength, hbatches⟩ := of_decide_eq_true hcheck
  refine ⟨t, c, hrun, hlength, hbatches, ?_⟩
  rw [← hbatches]
  exact (processing_exactly_once (fun _ => rfl) hrun).2.1

end FleetPulse
