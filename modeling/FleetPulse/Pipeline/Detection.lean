import FleetPulse.Pipeline.Fleet

/-! Which threshold-crossing samples open an incident.

    `process_event` compares only the latest sample of a batch with the thresholds. A sample before
    it that crosses goes undetected unless the latest one crosses the same threshold or the agent
    has an open incident of that type already (`Foreseen`). Runs whose commits all meet this
    condition are exactly those in which nothing goes undetected. -/

namespace FleetPulse
open Values Interleaving

/-- Every sample of the batch that reaches a threshold has an open incident of its agent. -/
def Detected (thresholds : PyFloat × PyFloat) (incidents : List IncidentRecord)
    (batch : TelemetryBatch) : Prop :=
  ∀ sample ∈ batch.samples,
    (thresholds.1.le sample.cpuPercent = true →
      Fleet.HasOpen incidents batch.agentId "high_cpu") ∧
    (thresholds.2.le sample.memory.usedPercent = true →
      Fleet.HasOpen incidents batch.agentId "high_memory")

/-- Every sample of the batch that reaches a threshold has an open incident already, or the event is
    new and the latest sample reaches that threshold too. -/
def Foreseen (thresholds : PyFloat × PyFloat) (incidents : List IncidentRecord) (isNew : Prop)
    (batch : TelemetryBatch) : Prop :=
  ∀ sample ∈ batch.samples,
    (thresholds.1.le sample.cpuPercent = true →
      Fleet.HasOpen incidents batch.agentId "high_cpu" ∨
        isNew ∧ thresholds.1.le (latest batch).cpuPercent = true) ∧
    (thresholds.2.le sample.memory.usedPercent = true →
      Fleet.HasOpen incidents batch.agentId "high_memory" ∨
        isNew ∧ thresholds.2.le (latest batch).memory.usedPercent = true)

/-! ### One commit -/

theorem hasOpen_openIncident {batch : TelemetryBatch} {incidents : List IncidentRecord}
    {value threshold : PyFloat} {agentId incidentType opened : String} :
    Fleet.HasOpen (Fleet.openIncident batch opened value threshold incidents) agentId incidentType ↔
      Fleet.HasOpen incidents agentId incidentType ∨
        (batch.agentId = agentId ∧ opened = incidentType ∧ threshold.le value = true) := by
  unfold Fleet.openIncident
  split
  · next h =>
    constructor
    · rintro ⟨r, hr, hagent, htype, hstatus⟩
      rcases List.mem_append.mp hr with hr | hr
      · exact Or.inl ⟨r, hr, hagent, htype, hstatus⟩
      · rw [List.mem_singleton.mp hr] at hagent htype
        exact Or.inr ⟨hagent, htype, h.1⟩
    · rintro (⟨r, hr, hrest⟩ | ⟨hagent, htype, -⟩)
      · exact ⟨r, List.mem_append_left _ hr, hrest⟩
      · exact ⟨_, List.mem_append_right _ (List.mem_singleton_self _), hagent, htype, rfl⟩
  · next h =>
    refine ⟨Or.inl, ?_⟩
    rintro (hopen | ⟨rfl, rfl, hle⟩)
    · exact hopen
    · by_contra hno
      exact h ⟨hle, hno⟩

/-- A batch that is processed has an open CPU incident if there was one or its sample crosses, and
    the same for memory. -/
theorem hasOpen_openIncidents {thresholds : PyFloat × PyFloat} {batch : TelemetryBatch}
    {sample : TelemetrySample} {incidents : List IncidentRecord} :
    (Fleet.HasOpen (Fleet.openIncidents thresholds batch sample incidents) batch.agentId
        "high_cpu" ↔
      Fleet.HasOpen incidents batch.agentId "high_cpu" ∨
        thresholds.1.le sample.cpuPercent = true) ∧
    (Fleet.HasOpen (Fleet.openIncidents thresholds batch sample incidents) batch.agentId
        "high_memory" ↔
      Fleet.HasOpen incidents batch.agentId "high_memory" ∨
        thresholds.2.le sample.memory.usedPercent = true) := by
  simp [Fleet.openIncidents, hasOpen_openIncident]

theorem HasOpen.mono {incidents incidents' : List IncidentRecord} (hsub : incidents ⊆ incidents')
    {agentId incidentType : String} (h : Fleet.HasOpen incidents agentId incidentType) :
    Fleet.HasOpen incidents' agentId incidentType := by
  obtain ⟨r, hr, hrest⟩ := h
  exact ⟨r, hsub hr, hrest⟩

theorem foldlM_openIncident_extends {batch : TelemetryBatch} :
    ∀ {list : List (String × PyFloat × PyFloat)} {incidents incidents' : Table _},
    list.foldlM (openIncident batch) incidents = .ok incidents' →
    incidents.rows <+: incidents'.rows
  | [], _, _, h => by cases h; exact List.prefix_rfl
  | condition :: list, _, _, h => by
      rw [List.foldlM_cons] at h
      obtain ⟨incidents₁, h₁, h⟩ := bind_eq_ok.mp h
      refine List.IsPrefix.trans ?_ (foldlM_openIncident_extends h)
      unfold openIncident at h₁
      split at h₁
      · obtain ⟨_, -, h₁⟩ := bind_eq_ok.mp h₁
        cases h₁
        exact Table.prefix_insertOrIgnore _ _
      · cases h₁
        exact List.prefix_rfl

/-! ### Runs -/

/-- A step that commits an event finds its batch foreseen. -/
def CommitsForeseen {ι : Type} (libs : Libraries) (settings : ι → WorkerSettings) (i : ι)
    (s : Shared ι) : Event → Prop
  | .advanced _ (.processing event) .invalidating => ∀ batch,
      storedBatch libs event.aggregateId s.db = .ok batch →
      Foreseen (settings i).thresholds s.db.incidents.rows
        (event.eventId ∉ s.db.processedEvents.keys) batch
  | _ => True

instance decidableForallOk {ε α : Type} (x : Except ε α) (p : α → Prop) [DecidablePred p] :
    Decidable (∀ a, x = .ok a → p a) :=
  match x with
  | .ok a => decidable_of_iff (p a) ⟨fun h _ heq => Except.ok.inj heq ▸ h, fun h => h a rfl⟩
  | .error _ => .isTrue (fun _ h => nomatch h)

instance (thresholds : PyFloat × PyFloat) (incidents : List IncidentRecord) (isNew : Prop)
    [Decidable isNew] : DecidablePred (Foreseen thresholds incidents isNew) := fun batch => by
  unfold Foreseen; infer_instance

instance {ι : Type} (libs : Libraries) (settings : ι → WorkerSettings) (i : ι) (s : Shared ι)
    (e : Event) : Decidable (CommitsForeseen libs settings i s e) := by
  unfold CommitsForeseen; split <;> infer_instance

/-- The pipeline without commits that leave a crossing sample undetected. -/
def detectingPipeline {ι : Type} [DecidableEq ι] (libs : Libraries)
    (settings : ι → WorkerSettings) : Program ι (Shared ι) Local Event :=
  (pipeline libs settings).restrict (fun i s _ e => CommitsForeseen libs settings i s e)

/-- Each event committed in the run has its batch detected by now. -/
def AllDetected {ι : Type} (libs : Libraries) (settings : ι → WorkerSettings)
    (t : List (ι × Event)) (db : Database) : Prop :=
  ∀ i id event, (i, Event.advanced id (.processing event) .invalidating) ∈ t → ∃ batch,
    storedBatch libs event.aggregateId db = .ok batch ∧
    Detected (settings i).thresholds db.incidents.rows batch

section
variable {ι : Type} [DecidableEq ι] {libs : Libraries} {settings : ι → WorkerSettings}
  {s s' : Shared ι} {l l' : Local} {e : Event} {i : ι} {t : List (ι × Event)}
  {c : Config ι (Shared ι) Local}

theorem Step.incidents_extend (h : Step libs settings i s l e s' l') (hd : Durable libs s.toStores)
    (hl : assertion libs s.toStores l) : s.db.incidents.rows <+: s'.db.incidents.rows := by
  rcases Step.processes h hd hl with ⟨-, -, hincidents⟩ | ⟨_, _, _, _, -, -, -, -, -, -, -, hincidents⟩
  · rw [hincidents]
  · exact foldlM_openIncident_extends hincidents

theorem incidentsTyped_run (h : Run (pipeline libs settings) t c) :
    IncidentsTyped c.shared.db.incidents.rows := by
  refine h.invariant (I := fun s => IncidentsTyped s.db.incidents.rows)
    (fun _ h => absurd h List.not_mem_nil) ?_
  intro t s loc i e s' l' hrun hi hs
  obtain ⟨hd, hl⟩ := durable_run hrun
  rcases Step.processes hs hd (hl i) with
    ⟨-, -, hincidents⟩ | ⟨_, _, _, _, -, -, -, -, -, -, -, hincidents⟩
  · rw [hincidents]; exact hi
  · exact (openIncidents_refine hi hincidents).2

/-- The commit detects every crossing sample of the batch exactly if the batch was foreseen. -/
theorem Step.detected_iff {id : ℕ} {event : QueueEvent} {batch : TelemetryBatch}
    (h : Step libs settings i s l (.advanced id (.processing event) .invalidating) s' l')
    (hi : IncidentsTyped s.db.incidents.rows)
    (hbatch : storedBatch libs event.aggregateId s.db = .ok batch) :
    Detected (settings i).thresholds s'.db.incidents.rows batch ↔
      Foreseen (settings i).thresholds s.db.incidents.rows
        (event.eventId ∉ s.db.processedEvents.keys) batch := by
  rcases processEvent_cases (Step.committed h) with
    ⟨hmem, hdb⟩ | ⟨batch', _, incidents, hnew, -, hbatch', -, hincidents, hdb⟩
  · rw [hdb]
    simp [Detected, Foreseen, hmem]
  · obtain rfl : batch = batch' := Except.ok.inj (hbatch.symm.trans hbatch')
    rw [hdb, Detected, (openIncidents_refine hi hincidents).1]
    simp only [Foreseen, hasOpen_openIncidents.1, hasOpen_openIncidents.2, hnew, not_false_eq_true,
      true_and]

/-- The committed event is one of the stream, so its batch is stored. -/
theorem Step.commit_stored {id : ℕ} {event : QueueEvent}
    (h : Step libs settings i s l (.advanced id (.processing event) .invalidating) s' l')
    (hd : Durable libs s.toStores) (hl : assertion libs s.toStores l) :
    ∃ batch, storedBatch libs event.aggregateId s.db = .ok batch := by
  cases h with
  | api h => cases h
  | relay h => cases h
  | reader h => cases h
  | worker h => cases h with
    | advance _ _ =>
      obtain ⟨-, hentry, hdecode⟩ := hl
      obtain ⟨row, batch, haccepted, hdecodes⟩ := hd.entry hentry
      obtain rfl := Except.ok.inj (hdecodes.symm.trans hdecode)
      exact ⟨batch, haccepted.storedBatch libs⟩

omit [DecidableEq ι] in
/-- What is detected stays detected. -/
theorem AllDetected.mono {db db' : Database} (h : AllDetected libs settings t db)
    (hstored : ∀ {aggregateId batch}, storedBatch libs aggregateId db = .ok batch →
      storedBatch libs aggregateId db' = .ok batch)
    (hsub : db.incidents.rows ⊆ db'.incidents.rows) : AllDetected libs settings t db' := by
  intro i id event hmem
  obtain ⟨batch, hbatch, hdetected⟩ := h i id event hmem
  exact ⟨batch, hstored hbatch, fun sample hs =>
    ⟨fun hle => HasOpen.mono hsub ((hdetected sample hs).1 hle),
      fun hle => HasOpen.mono hsub ((hdetected sample hs).2 hle)⟩⟩

theorem detecting_run (h : Run (detectingPipeline libs settings) t c) :
    AllDetected libs settings t c.shared.db := by
  refine (h.outline (I := fun t s => AllDetected libs settings t s.db) (L := fun _ _ _ _ => True)
    (fun _ _ _ h => absurd h List.not_mem_nil) (fun _ _ _ => trivial) ?_
    (fun _ _ _ _ _ _ _ _ _ _ _ _ _ _ => trivial)).1
  intro t s loc i e s' l' hrun hall _ hs
  obtain ⟨hstep, hforeseen⟩ := hs
  obtain ⟨hd, hl⟩ := durable_run hrun.of_restrict
  have hg := Step.grows hstep
  have hold := hall.mono (storedBatch_mono hg) (Step.incidents_extend hstep hd (hl i)).subset
  refine ⟨fun j id event hmem => ?_, trivial⟩
  rcases List.mem_append.mp hmem with hmem | hmem
  · exact hold j id event hmem
  · cases List.mem_singleton.mp hmem
    obtain ⟨batch, hbatch⟩ := Step.commit_stored hstep hd (hl i)
    exact ⟨batch, storedBatch_mono hg hbatch,
      (Step.detected_iff hstep (incidentsTyped_run hrun.of_restrict) hbatch).mpr
        (hforeseen batch hbatch)⟩

/-- DETECTION: in runs whose commits find their batches foreseen, every threshold-crossing sample of
    every committed batch has an open incident from the commit on; and a run in which this always
    holds is such a run. -/
theorem threshold_crossings_detected :
    (∀ t (c : Config ι (Shared ι) Local), Run (detectingPipeline libs settings) t c →
      AllDetected libs settings t c.shared.db) ∧
    ∀ t (c : Config ι (Shared ι) Local), Run (pipeline libs settings) t c →
      (∀ t₁ t₂ c₁, t = t₁ ++ t₂ → Run (pipeline libs settings) t₁ c₁ →
        Steps (pipeline libs settings) c₁ t₂ c → AllDetected libs settings t₁ c₁.shared.db) →
      Run (detectingPipeline libs settings) t c := by
  refine ⟨fun t c h => detecting_run h, fun t c h hall => h.restrict ?_⟩
  intro t₁ i e t₂ s loc s' l' ht hrun hstep hsteps
  unfold CommitsForeseen
  split
  swap
  · trivial
  rename_i id event
  intro batch hbatch
  have hdetected := hall (t₁ ++ [(i, .advanced id (.processing event) .invalidating)]) t₂ _
    (ht.trans (List.append_cons ..)) (hrun.snoc hstep) hsteps
  obtain ⟨batch', hbatch', hdetected⟩ :=
    hdetected i id event (List.mem_append_right _ (List.mem_singleton_self _))
  obtain rfl := Except.ok.inj ((storedBatch_mono (Step.grows hstep) hbatch).symm.trans hbatch')
  exact (Step.detected_iff hstep (incidentsTyped_run hrun) hbatch).mp hdetected

end

/-- A batch whose first sample crosses the threshold and whose latest one does not. -/
def fadingBatch : TelemetryBatch :=
  ⟨uniformId 1, "node-1", "host-1", [smallSample 10 95, smallSample 20 40], by decide +kernel⟩

/-- One worker processes one batch. -/
def oneBatchActions (batch : TelemetryBatch) : List (Unit × Action) :=
  (ingestActions batch 5 (uniformId 3) ++
    publishActions [outboxEvent 5 (uniformId 3) "request" batch] ++ readActions ++
    handleActions).map (fun a => ((), a))

/-- The event of such a batch. -/
def onlyEvent (batch : TelemetryBatch) : QueueEvent :=
  queueEvent (outboxEvent 5 (uniformId 3) "request" batch)

/-- A batch whose latest sample crosses: its incident is open. -/
theorem threshold_crossings_detected_latest :
    ∃ t c, Run (detectingPipeline Libraries.canonical (fun _ : Unit => smallSettings)) t c ∧
      ((), Event.advanced 0 (.processing (onlyEvent olderBatch)) .invalidating) ∈ t ∧
      AllDetected Libraries.canonical (fun _ : Unit => smallSettings) t c.shared.db := by
  have hrun : (scheduleWithin Libraries.canonical (fun _ : Unit => smallSettings)
      (fun i s _ e => CommitsForeseen Libraries.canonical (fun _ => smallSettings) i s e)
      (oneBatchActions olderBatch) [] (initial Unit)).any (fun r => decide
        (((), Event.advanced 0 (.processing (onlyEvent olderBatch)) .invalidating) ∈ r.1)) = true := by
    decide +kernel
  obtain ⟨t, c, hrun, hcheck⟩ := exists_run_within hrun
  exact ⟨t, c, hrun, of_decide_eq_true hcheck, threshold_crossings_detected.1 t c hrun⟩

/-- The sample at 95 percent opens no incident, since a later one of its batch is at 40. -/
theorem threshold_crossing_undetected :
    ∃ t c, Run (pipeline Libraries.canonical (fun _ : Unit => smallSettings)) t c ∧
      ((), Event.advanced 0 (.processing (onlyEvent fadingBatch)) .invalidating) ∈ t ∧
      storedBatch Libraries.canonical (onlyEvent fadingBatch).aggregateId c.shared.db =
        .ok fadingBatch ∧
      ¬ Detected smallSettings.thresholds c.shared.db.incidents.rows fadingBatch := by
  have hrun : (schedule Libraries.canonical (fun _ : Unit => smallSettings)
      (oneBatchActions fadingBatch) [] (initial Unit)).any (fun r => decide
        (((), Event.advanced 0 (.processing (onlyEvent fadingBatch)) .invalidating) ∈ r.1 ∧
        (storedBatch Libraries.canonical (onlyEvent fadingBatch).aggregateId
          r.2.shared.db).toOption = some fadingBatch ∧ r.2.shared.db.incidents.rows = [])) = true := by
    decide +kernel
  obtain ⟨t, c, hrun, hcheck⟩ := exists_run hrun
  obtain ⟨hmem, hstored, hincidents⟩ := of_decide_eq_true hcheck
  refine ⟨t, c, hrun, hmem, ?_, fun hdetected => ?_⟩
  · cases h : storedBatch Libraries.canonical (onlyEvent fadingBatch).aggregateId c.shared.db with
    | error e => rw [h] at hstored; cases hstored
    | ok batch => rw [h] at hstored; exact congrArg Except.ok (Option.some.inj hstored)
  · obtain ⟨r, hr, -⟩ :=
      (hdetected (smallSample 10 95) (List.mem_cons_self ..)).1 (by decide +kernel)
    rw [hincidents] at hr
    exact List.not_mem_nil hr

end FleetPulse
