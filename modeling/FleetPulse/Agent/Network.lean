import FleetPulse.Agent.Main
import FleetPulse.Pipeline.Acknowledgement

/-! From the spool of an agent to the stores of the pipeline.

        run() ── POST ──▶ requests on their way ──▶ ingest_batch ─▶ outbox ─▶ stream ─▶ workers
          ▲                                              │
          └────────────── answers on their way ◀─────────┘

    The agent runs next to the pipeline, with a network between them that may lose or delay what it
    carries. The agent may crash between any two statements, and then a new process starts on the same
    file. Other clients post batches too. SQLite and PostgreSQL commit atomically and do not raise; a
    2xx answer with a body that parses comes from `ingest_batch` for that request only. -/

namespace FleetPulse
open Values Interleaving

/-! ### The system -/

/-- What `IngestionClient.send` posts: the body, and the header `X-Request-ID`. -/
structure PostedRequest where
  body : Payload
  requestId : String

def postedRequest (batch : TelemetryBatch) : PostedRequest :=
  ⟨batch.modelDumpJson, batch.batchId.str⟩

/-- The id that `correlation_middleware` gives a request: the first 128 characters of the header, or
    a fresh one if there are none. -/
def correlationOf (header : String) (fresh : UUID) : String :=
  let requestId := String.ofList (header.toList.take 128)
  if requestId = "" then fresh.str else requestId

/-- The agent, the network and the pipeline, and what has happened so far: the batches built by the
    agent, the ids of the batches of others, the batches whose enqueue has committed, and the rows
    that the eviction loops of the open and of the committed enqueues have removed. -/
structure World (ι : Type) where
  spool : Connection
  agent : AgentLoop
  config : Config ι (Shared ι) Local
  posted : List PostedRequest
  serving : ι → Option ℕ
  answers : List (ℕ × IngestionResponse)
  built : List TelemetryBatch
  foreign : List UUID
  spooled : List TelemetryBatch
  evicting : List String
  evicted : List String

/-- The batch of a request that the step posts. -/
def AgentEvent.posted? : AgentEvent → Option TelemetryBatch
  | .posted batch => some batch
  | _ => none

/-- The batch that the step builds, with the state behind the step. -/
def AgentEvent.built? (l : AgentLoop) : AgentEvent → Option TelemetryBatch
  | .drawn _ => l.openBatch
  | _ => none

/-- The ids that are in the first table and not in the second. -/
def removedIds (t t' : SpoolTable) : List String := t.keys.filter (fun id => id ∉ t'.keys)

variable {ι : Type} [DecidableEq ι]

namespace World

/-- The batch id has its row in `telemetry_batches`. -/
def Stored (w : World ι) (batchId : UUID) : Prop :=
  batchId ∈ w.config.shared.db.telemetryBatches.keys

/-- The agent takes a step. -/
def move (w : World ι) (e : AgentEvent) (c : Connection) (l : AgentLoop) : World ι :=
  { w with
    spool := c
    agent := l
    posted := w.posted ++ (e.posted?.map postedRequest).toList
    built := w.built ++ (e.built? l).toList
    spooled := w.spooled ++ e.spooled?.toList
    evicting := match e with
      | .executed _ (.evicting _) => w.evicting ++ removedIds w.spool.working c.working
      | .executed _ (.committing _) => []
      | _ => w.evicting
    evicted := if e.spooled?.isSome then w.evicted ++ w.evicting else w.evicted }

/-- A process starts on the file, or has died: what was not committed is gone. -/
def reopen (w : World ι) (control : AgentControl) : World ι :=
  { w with spool := .connect w.spool.durable, agent := ⟨false, [], control⟩, evicting := [] }

/-- The pipeline takes a step. -/
def advance (w : World ι) (i : ι) (s : Shared ι) (l : Local) : World ι :=
  { w with config := ⟨s, Function.update w.config.loc i l⟩ }

/-- The process works on the request with that number, or on one of another client. -/
def serve (w : World ι) (i : ι) (request : Option ℕ) : World ι :=
  { w with serving := Function.update w.serving i request }

end World

section
variable (libs : Libraries) (settings : AgentSettings) (textBytes : Payload → ℕ)
  (workers : ι → WorkerSettings)

/-- A step of the system. The agent waits for the answer to its last request. -/
inductive DeliveryStep : World ι → World ι → Prop
  | agent {w e c l} : AgentStep libs settings textBytes w.spool w.agent e c l →
      e ≠ .spoolRaised →
      (∀ response, e = .responded response → (w.posted.length - 1, response) ∈ w.answers) →
      DeliveryStep w (w.move e c l)
  | crash (w) : DeliveryStep w (w.reopen .ended)
  | restart {w} : w.agent.control = .ended → DeliveryStep w (w.reopen .looping)
  | receive {w i k request batch now fresh s l} : w.posted[k]? = some request →
      TelemetryBatch.validate libs request.body = some batch →
      Step libs workers i w.config.shared (w.config.loc i)
        (.received now batch (correlationOf request.requestId fresh)) s l →
      DeliveryStep w ((w.advance i s l).serve i (some k))
  | receiveForeign {w i batch now correlationId s l} :
      Step libs workers i w.config.shared (w.config.loc i) (.received now batch correlationId) s l →
      DeliveryStep w
        { (w.advance i s l).serve i none with foreign := batch.batchId :: w.foreign }
  | answer {w i batch response s l} :
      Step libs workers i w.config.shared (w.config.loc i) (.answered batch response) s l →
      DeliveryStep w { w.advance i s l with
        answers := w.answers ++ (w.serving i).toList.map (fun k => (k, response)) }
  | pipeline {w i e s l} :
      (∀ now batch correlationId, e ≠ .received now batch correlationId) →
      (∀ batch response, e ≠ .answered batch response) →
      Step libs workers i w.config.shared (w.config.loc i) e s l →
      DeliveryStep w (w.advance i s l)

/-- The runs of the system from an empty spool and empty stores. -/
inductive DeliveryRun : World ι → Prop
  | start {config} : Initial (FleetPulse.pipeline libs workers) config →
      DeliveryRun ⟨.connect .empty, ⟨false, [], .looping⟩, config, [], fun _ => none, [], [], [], [],
        [], []⟩
  | step {w w'} : DeliveryRun w → DeliveryStep libs settings textBytes workers w w' →
      DeliveryRun w'

end

section
variable {libs : Libraries} {settings : AgentSettings} {textBytes : Payload → ℕ}
  {workers : ι → WorkerSettings} {w w' : World ι}

/-- Whatever the agent and the network do, the pipeline's part of a run is a run of the pipeline. -/
theorem DeliveryRun.run_pipeline (h : DeliveryRun libs settings textBytes workers w) :
    ∃ t, Run (pipeline libs workers) t w.config := by
  induction h with
  | start hinitial => exact ⟨[], _, hinitial, .refl _⟩
  | step _ hstep ih =>
    obtain ⟨t, hrun⟩ := ih
    cases hstep with
    | agent | crash | restart => exact ⟨t, hrun⟩
    | receive _ _ h | receiveForeign h | answer h | pipeline _ _ h => exact ⟨_, hrun.snoc h⟩

/-- What a step of the pipeline does to the requests: one comes in, or its transaction commits, or the
    batches and the outbox stay as they are. -/
theorem Step.ingestion {i : ι} {s s' : Shared ι} {l l' : Local} {e : Event}
    (h : Step libs workers i s l e s' l') :
    (∃ now batch correlationId, e = .received now batch correlationId ∧
      l' = .ingesting now batch correlationId ∧ s' = s) ∨
    (∃ now createdAt eventId batch correlationId r, l = .ingesting now batch correlationId ∧
      l' = .answering batch r ∧
      ingestBatch now createdAt eventId correlationId batch s.db = .ok (s'.db, r)) ∨
    (s'.db.telemetryBatches = s.db.telemetryBatches ∧
      s'.db.outboxEvents.rows.map OutboxEventRecord.asInserted =
        s.db.outboxEvents.rows.map OutboxEventRecord.asInserted ∧
      (l' = l ∨ (∀ now batch correlationId, l' ≠ .ingesting now batch correlationId) ∧
        ∀ batch r, l' ≠ .answering batch r)) := by
  cases h with
  | api h => cases h with
    | receive now batch correlationId => exact .inl ⟨now, batch, correlationId, rfl, rfl, rfl⟩
    | commit hingest => exact .inr (.inl ⟨_, _, _, _, _, _, rfl, rfl, hingest⟩)
    | answer => exact .inr (.inr ⟨rfl, rfl, .inr ⟨nofun, nofun⟩⟩)
  | relay h => cases h with
    | commit => exact .inr (.inr ⟨rfl, asInserted_commitPublished _ _, .inr ⟨nofun, nofun⟩⟩)
    | _ => exact .inr (.inr ⟨rfl, rfl, .inr ⟨nofun, nofun⟩⟩)
  | worker h => cases h with
    | advance _ ha =>
      obtain ⟨-, hbatches, houtbox, -⟩ := advance_frame ha
      exact .inr (.inr ⟨hbatches, by rw [houtbox], .inr ⟨nofun, nofun⟩⟩)
    | _ => exact .inr (.inr ⟨rfl, rfl, .inr ⟨nofun, nofun⟩⟩)
  | reader h =>
    obtain ⟨hdb, -⟩ := h.frame
    refine .inr (.inr ⟨by rw [hdb], by rw [hdb], .inr ?_⟩)
    cases h <;> exact ⟨nofun, nofun⟩
  | expire => exact .inr (.inr ⟨rfl, rfl, .inl rfl⟩)
  | stop => exact .inr (.inr ⟨rfl, rfl, .inr ⟨nofun, nofun⟩⟩)

/-! ### The network and the API -/

/-- The process works on a request of the agent, as it was posted, or on one of another client. -/
def World.Serves (w : World ι) (i : ι) : Local → Prop
  | .ingesting _ batch correlationId =>
    match w.serving i with
    | some k => w.posted[k]? = some (postedRequest batch) ∧ batch ∈ w.built ∧
        batch.finite = true ∧ correlationId = batch.batchId.str
    | none => batch.batchId ∈ w.foreign
  | .answering batch _ =>
    match w.serving i with
    | some k => w.posted[k]? = some (postedRequest batch) ∧ w.Stored batch.batchId
    | none => True
  | _ => True

/-- What is stored and what is on its way comes from the batches that the agent built, but for the
    batches of others. -/
structure Transports (w : World ι) : Prop where
  posted : ∀ request ∈ w.posted, ∃ batch ∈ w.built, batch.finite = true ∧
    request = postedRequest batch
  answers : ∀ k response, (k, response) ∈ w.answers → ∃ batch,
    w.posted[k]? = some (postedRequest batch) ∧ w.Stored batch.batchId
  requests : ∀ i, w.Serves i (w.config.loc i)
  records : ∀ record ∈ w.config.shared.db.telemetryBatches.rows, record.batchId ∈ w.foreign ∨
    ∃ batch ∈ w.built, batch.finite = true ∧ record.batchId = batch.batchId ∧
      record.payload = batch.dump
  outbox : ∀ event ∈ w.config.shared.db.outboxEvents.rows.map OutboxEventRecord.asInserted,
    ∃ batch createdAt correlationId,
      event = outboxEvent createdAt event.eventId correlationId batch ∧
      (batch.batchId ∈ w.foreign ∨ batch ∈ w.built ∧ correlationId = batch.batchId.str)

/-- Nothing that was built, posted or stored is taken back. -/
structure World.Extends (w w' : World ι) : Prop where
  built : w.built ⊆ w'.built
  foreign : w.foreign ⊆ w'.foreign
  posted : w.posted <+: w'.posted
  stored : ∀ batchId, w.Stored batchId → w'.Stored batchId

theorem getElem?_grow {α : Type} {l l' : List α} (h : l <+: l') {k : ℕ} {a : α}
    (ha : l[k]? = some a) : l'[k]? = some a := by
  obtain ⟨rest, rfl⟩ := h
  obtain ⟨hlt, -⟩ := List.getElem?_eq_some_iff.mp ha
  rwa [List.getElem?_append_left hlt]

omit [DecidableEq ι] in
/-- A process that goes on with the same request. -/
theorem World.Serves.mono {i : ι} {l : Local} (h : w.Serves i l) (he : w.Extends w')
    (hserving : w'.serving i = w.serving i) : w'.Serves i l := by
  cases l with
  | ingesting now batch correlationId =>
    simp only [World.Serves, hserving] at h ⊢
    cases hk : w.serving i with
    | none =>
      rw [hk] at h
      exact he.foreign h
    | some k =>
      rw [hk] at h
      exact ⟨getElem?_grow he.posted h.1, he.built h.2.1, h.2.2⟩
  | answering batch response =>
    simp only [World.Serves, hserving] at h ⊢
    cases hk : w.serving i with
    | none => trivial
    | some k =>
      rw [hk] at h
      exact ⟨getElem?_grow he.posted h.1, he.stored _ h.2⟩
  | _ => trivial

omit [DecidableEq ι] in
/-- What a step leaves alone stays right. -/
theorem Transports.mono (h : Transports w) (he : w.Extends w')
    (hposted : ∀ request ∈ w'.posted, request ∈ w.posted ∨ ∃ batch ∈ w'.built,
      batch.finite = true ∧ request = postedRequest batch)
    (hanswers : ∀ k response, (k, response) ∈ w'.answers → (k, response) ∈ w.answers ∨ ∃ batch,
      w'.posted[k]? = some (postedRequest batch) ∧ w'.Stored batch.batchId)
    (hrequests : ∀ i, w'.Serves i (w'.config.loc i))
    (hrecords : ∀ record ∈ w'.config.shared.db.telemetryBatches.rows,
      record ∈ w.config.shared.db.telemetryBatches.rows ∨ record.batchId ∈ w'.foreign ∨
        ∃ batch ∈ w'.built, batch.finite = true ∧ record.batchId = batch.batchId ∧
          record.payload = batch.dump)
    (houtbox : ∀ event ∈ w'.config.shared.db.outboxEvents.rows.map OutboxEventRecord.asInserted,
      event ∈ w.config.shared.db.outboxEvents.rows.map OutboxEventRecord.asInserted ∨
        ∃ batch createdAt correlationId,
          event = outboxEvent createdAt event.eventId correlationId batch ∧
          (batch.batchId ∈ w'.foreign ∨ batch ∈ w'.built ∧ correlationId = batch.batchId.str)) :
    Transports w' where
  posted request hrequest := by
    rcases hposted request hrequest with hold | hnew
    · obtain ⟨batch, hbatch, hrest⟩ := h.posted request hold
      exact ⟨batch, he.built hbatch, hrest⟩
    · exact hnew
  answers k response hmem := by
    rcases hanswers k response hmem with hold | hnew
    · obtain ⟨batch, hbatch, hstored⟩ := h.answers k response hold
      exact ⟨batch, getElem?_grow he.posted hbatch, he.stored _ hstored⟩
    · exact hnew
  requests := hrequests
  records record hrecord := by
    rcases hrecords record hrecord with hold | hnew
    · rcases h.records record hold with hforeign | ⟨batch, hbatch, hrest⟩
      · exact .inl (he.foreign hforeign)
      · exact .inr ⟨batch, he.built hbatch, hrest⟩
    · exact hnew
  outbox event hevent := by
    rcases houtbox event hevent with hold | hnew
    · obtain ⟨batch, createdAt, correlationId, heq, hfrom⟩ := h.outbox event hold
      refine ⟨batch, createdAt, correlationId, heq, ?_⟩
      exact hfrom.imp (fun h => he.foreign h) (fun h => ⟨he.built h.1, h.2⟩)
    · exact hnew

/-- The header of the agent is the correlation id of its request. -/
theorem correlationOf_str (batchId fresh : UUID) :
    correlationOf batchId.str fresh = batchId.str := by
  have hlength : batchId.str.toList.length = 36 := by
    simp [UUID.str, UUID.hyphenate, batchId.length_eq]
  have htake : String.ofList (batchId.str.toList.take 128) = batchId.str := by
    rw [List.take_of_length_le (by omega), String.ofList_toList]
  have hne : batchId.str ≠ "" := by
    intro h
    rw [h] at hlength
    cases hlength
  simp only [correlationOf, htake, hne, if_false]

omit [DecidableEq ι] in
/-- What was posted is read back. -/
theorem batch_of_posted {request : PostedRequest} {batch batch' : TelemetryBatch}
    (hrequest : request = postedRequest batch)
    (hvalidate : TelemetryBatch.validate libs request.body = some batch') : batch' = batch := by
  rw [hrequest, postedRequest, TelemetryBatch.validate_modelDumpJson] at hvalidate
  split at hvalidate
  · exact (Option.some.inj hvalidate).symm
  · cases hvalidate

theorem World.extends_advance {i : ι} {s : Shared ι} {l : Local}
    (hg : Grows w.config.shared.toStores s.toStores) : w.Extends (w.advance i s l) :=
  ⟨List.Subset.refl _, List.Subset.refl _, List.prefix_rfl,
    fun _ h => Table.keys_subset_of_prefix hg.telemetryBatches h⟩

/-- The other processes go on; this one has its new request. -/
theorem serves_update {i : ι} {l : Local} (h : ∀ j, w.Serves j (w.config.loc j))
    (he : w.Extends w') (hserving : ∀ j, j ≠ i → w'.serving j = w.serving j)
    (hloc : w'.config.loc = Function.update w.config.loc i l) (hi : w'.Serves i l) :
    ∀ j, w'.Serves j (w'.config.loc j) := by
  intro j
  rw [hloc]
  by_cases hj : j = i
  · subst hj
    rwa [Function.update_self]
  · rw [Function.update_of_ne hj]
    exact (h j).mono he (hserving j hj)

namespace Transports

/-- A request of the agent comes in. -/
theorem receive {i : ι} {k : ℕ} {request : PostedRequest} {batch : TelemetryBatch} {now : Instant}
    {fresh : UUID} (h : Transports w) (hk : w.posted[k]? = some request)
    (hvalidate : TelemetryBatch.validate libs request.body = some batch) :
    Transports ((w.advance i w.config.shared
      (.ingesting now batch (correlationOf request.requestId fresh))).serve i (some k)) := by
  obtain ⟨b, hbuilt, hfinite, hrequest⟩ := h.posted request (List.mem_of_getElem? hk)
  obtain rfl := batch_of_posted hrequest hvalidate
  have he : w.Extends ((w.advance i w.config.shared
      (.ingesting now batch (correlationOf request.requestId fresh))).serve i (some k)) :=
    ⟨List.Subset.refl _, List.Subset.refl _, List.prefix_rfl, fun _ h => h⟩
  refine h.mono he (fun _ h => .inl h) (fun _ _ h => .inl h) ?_ (fun _ h => .inl h)
    (fun _ h => .inl h)
  refine serves_update h.requests he (fun j hj => Function.update_of_ne hj ..) rfl ?_
  simp only [World.Serves, World.serve, Function.update_self]
  refine ⟨hrequest ▸ hk, hbuilt, hfinite, ?_⟩
  rw [hrequest]
  exact correlationOf_str batch.batchId fresh

/-- A request of another client comes in. -/
theorem receiveForeign {i : ι} {batch : TelemetryBatch} {now : Instant} {correlationId : String}
    (h : Transports w) : Transports { ((w.advance i w.config.shared
      (.ingesting now batch correlationId)).serve i none) with
        foreign := batch.batchId :: w.foreign } := by
  have he : w.Extends { ((w.advance i w.config.shared
      (.ingesting now batch correlationId)).serve i none) with
        foreign := batch.batchId :: w.foreign } :=
    ⟨List.Subset.refl _, List.subset_cons_self _ _, List.prefix_rfl, fun _ h => h⟩
  refine h.mono he (fun _ h => .inl h) (fun _ _ h => .inl h) ?_ (fun _ h => .inl h)
    (fun _ h => .inl h)
  refine serves_update h.requests he (fun j hj => Function.update_of_ne hj ..) rfl ?_
  simp only [World.Serves, World.serve, Function.update_self]
  exact List.mem_cons_self

/-- A step that leaves the batches and the outbox alone and brings no request in. -/
theorem quiet {i : ι} {s : Shared ι} {l : Local} (h : Transports w)
    (hg : Grows w.config.shared.toStores s.toStores)
    (hbatches : s.db.telemetryBatches = w.config.shared.db.telemetryBatches)
    (houtbox : s.db.outboxEvents.rows.map OutboxEventRecord.asInserted =
      w.config.shared.db.outboxEvents.rows.map OutboxEventRecord.asInserted)
    (hl : l = w.config.loc i ∨ (∀ now batch correlationId, l ≠ .ingesting now batch correlationId) ∧
      ∀ batch r, l ≠ .answering batch r) : Transports (w.advance i s l) := by
  have he : w.Extends (w.advance i s l) := World.extends_advance hg
  refine h.mono he (fun _ h => .inl h) (fun _ _ h => .inl h) ?_ ?_ ?_
  · refine serves_update h.requests he (fun _ _ => rfl) rfl ?_
    rcases hl with rfl | ⟨hingesting, hanswering⟩
    · exact (h.requests i).mono he rfl
    · cases l with
      | ingesting now batch correlationId => exact absurd rfl (hingesting now batch correlationId)
      | answering batch r => exact absurd rfl (hanswering batch r)
      | _ => trivial
  · exact fun record hrecord => .inl (hbatches ▸ hrecord)
  · exact fun event hevent => .inl (houtbox ▸ hevent)

/-- The transaction of a request. -/
theorem commit {i : ι} {s : Shared ι} {now createdAt : Instant} {eventId : UUID}
    {batch : TelemetryBatch} {correlationId : String} {r : IngestionResponse} (h : Transports w)
    (hloc : w.config.loc i = .ingesting now batch correlationId)
    (hingest : ingestBatch now createdAt eventId correlationId batch w.config.shared.db =
      .ok (s.db, r)) (hg : Grows w.config.shared.toStores s.toStores) :
    Transports (w.advance i s (.answering batch r)) := by
  have he : w.Extends (w.advance i s (.answering batch r)) := World.extends_advance hg
  have hserves := h.requests i
  rw [hloc] at hserves
  have hfrom : batch.batchId ∈ w.foreign ∨ batch ∈ w.built ∧ batch.finite = true ∧
      correlationId = batch.batchId.str := by
    simp only [World.Serves] at hserves
    split at hserves
    · exact .inr hserves.2
    · exact .inl hserves
  have hstored : batch.batchId ∈ s.db.telemetryBatches.keys := by
    rcases ingestBatch_cases hingest with
        ⟨hmem, -, hdb⟩ | ⟨lo, hi, batches, outbox, -, -, -, -, hrows, -, hdb⟩
    · rw [hdb]
      exact hmem
    · rw [hdb]
      refine Table.mem_keys.mpr ⟨batchRecord batch lo hi, ?_, rfl⟩
      simp [hrows]
  refine h.mono he (fun _ h => .inl h) (fun _ _ h => .inl h) ?_ ?_ ?_
  · refine serves_update h.requests he (fun _ _ => rfl) rfl ?_
    have hi : w.Serves i (.ingesting now batch correlationId) := hserves
    simp only [World.Serves, World.advance] at hi ⊢
    cases hk : w.serving i with
    | none => trivial
    | some k =>
      rw [hk] at hi
      exact ⟨hi.1, hstored⟩
  · intro record hrecord
    rcases ingestBatch_cases hingest with
        ⟨-, -, hdb⟩ | ⟨lo, hi, batches, outbox, -, -, -, -, hrows, -, hdb⟩
    · exact .inl (by simpa [World.advance, hdb] using hrecord)
    · simp only [World.advance, hdb, hrows] at hrecord
      rcases List.mem_append.mp hrecord with hold | hnew
      · exact .inl hold
      · obtain rfl := List.mem_singleton.mp hnew
        refine .inr (hfrom.imp (fun h => h) ?_)
        exact fun ⟨hbuilt, hfinite, _⟩ => ⟨batch, hbuilt, hfinite, rfl, rfl⟩
  · intro event hevent
    rcases ingestBatch_cases hingest with
        ⟨-, -, hdb⟩ | ⟨lo, hi, batches, outbox, -, -, -, -, -, hout, hdb⟩
    · exact .inl (by simpa [World.advance, hdb] using hevent)
    · obtain ⟨-, hout⟩ := Table.insert_eq_some hout
      simp only [World.advance, hdb, hout, List.map_append] at hevent
      rcases List.mem_append.mp hevent with hold | hnew
      · exact .inl hold
      · obtain rfl := List.mem_singleton.mp hnew
        refine .inr ⟨batch, createdAt, correlationId, rfl, hfrom.imp (fun h => h) ?_⟩
        exact fun h => ⟨h.1, h.2.2⟩

omit [DecidableEq ι] in
/-- A step of the agent, which posts nothing but what it has built. -/
theorem move {e : AgentEvent} {c : Connection} {l : AgentLoop} (h : Transports w)
    (hposted : ∀ batch, e.posted? = some batch → batch ∈ w.built ∧ batch.finite = true) :
    Transports (w.move e c l) := by
  have he : w.Extends (w.move e c l) :=
    ⟨List.subset_append_left _ _, List.Subset.refl _, List.prefix_append _ _, fun _ h => h⟩
  refine h.mono he ?_ (fun _ _ h => .inl h) (fun i => (h.requests i).mono he rfl)
    (fun _ h => .inl h) (fun _ h => .inl h)
  intro request hrequest
  rcases List.mem_append.mp hrequest with hold | hnew
  · exact .inl hold
  · obtain ⟨batch, hbatch, rfl⟩ : ∃ batch, e.posted? = some batch ∧ postedRequest batch = request := by
      simpa using hnew
    obtain ⟨hbuilt, hfinite⟩ := hposted batch hbatch
    exact .inr ⟨batch, List.mem_append_left _ hbuilt, hfinite, rfl⟩

/-- Every step of the pipeline. -/
theorem pipeline {i : ι} {s : Shared ι} {l : Local} {e : Event} (h : Transports w)
    (hstep : Step libs workers i w.config.shared (w.config.loc i) e s l)
    (hreceived : ∀ now batch correlationId, e ≠ .received now batch correlationId) :
    Transports (w.advance i s l) := by
  have hg := Step.grows hstep
  rcases Step.ingestion hstep with ⟨now, batch, correlationId, he, -, -⟩ |
    ⟨now, createdAt, eventId, batch, correlationId, r, hloc, rfl, hingest⟩ |
    ⟨hbatches, houtbox, hl⟩
  · exact absurd he (hreceived now batch correlationId)
  · exact h.commit hloc hingest hg
  · exact h.quiet hg hbatches houtbox hl

/-- An answer goes out to the request that the process works on. -/
theorem answer {i : ι} {s : Shared ι} {l : Local} {batch : TelemetryBatch}
    {response : IngestionResponse} (h : Transports w)
    (hstep : Step libs workers i w.config.shared (w.config.loc i) (.answered batch response) s l) :
    Transports { w.advance i s l with
      answers := w.answers ++ (w.serving i).toList.map (fun k => (k, response)) } := by
  obtain ⟨hloc, rfl⟩ := Step.answered hstep
  have hserves := h.requests i
  rw [hloc] at hserves
  have hadvanced := h.pipeline hstep nofun
  refine ⟨hadvanced.posted, ?_, hadvanced.requests, hadvanced.records, hadvanced.outbox⟩
  intro k r hmem
  rcases List.mem_append.mp hmem with hold | hnew
  · exact h.answers k r hold
  · obtain ⟨k', hk, hpair⟩ : ∃ k', w.serving i = some k' ∧ (k', response) = (k, r) := by
      simpa using hnew
    obtain ⟨rfl, rfl⟩ := Prod.mk.inj hpair
    simp only [World.Serves, hk] at hserves
    exact ⟨batch, hserves⟩

end Transports

end

/-! ### Runs put together -/

/-- The network takes no part in the step. -/
def Event.local : Event → Bool
  | .received .. | .answered .. => false
  | _ => true

section
variable {ι : Type} [DecidableEq ι] {libs : Libraries} {settings : AgentSettings}
  {textBytes : Payload → ℕ} {workers : ι → WorkerSettings} {w : World ι}

/-- Steps of the pipeline alone. -/
theorem DeliveryRun.steps {t : List (ι × Event)} {c c' : Config ι (Shared ι) Local}
    (hsteps : Steps (pipeline libs workers) c t c')
    (hlocal : t.all (fun p => p.2.local) = true) :
    ∀ {w : World ι}, DeliveryRun libs settings textBytes workers w → w.config = c →
      DeliveryRun libs settings textBytes workers { w with config := c' } := by
  induction hsteps with
  | refl =>
    rintro w h rfl
    exact h
  | @snoc t s loc i e s' l' _ hstep ih =>
    rw [List.all_append, Bool.and_eq_true] at hlocal
    have he : e.local = true := by simpa using hlocal.2
    intro w h hw
    refine (ih hlocal.1 h hw).step (.pipeline ?_ ?_ hstep)
    · rintro now batch correlationId rfl
      cases he
    · rintro batch response rfl
      cases he

/-- A step of the agent without an answer. -/
theorem DeliveryRun.agent {e : AgentEvent} {c : Connection} {l : AgentLoop}
    (h : DeliveryRun libs settings textBytes workers w)
    (hstep : AgentStep libs settings textBytes w.spool w.agent e c l)
    (hspool : e ≠ .spoolRaised := by simp)
    (hresponse : ∀ response, e ≠ .responded response := by simp) :
    DeliveryRun libs settings textBytes workers (w.move e c l) :=
  h.step (.agent hstep hspool (fun response he => absurd he (hresponse response)))

end

end FleetPulse
