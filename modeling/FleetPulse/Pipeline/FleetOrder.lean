import FleetPulse.Pipeline.Fleet

/-! When the fleet state goes back in time, and when it cannot.

    The upsert of `process_event` takes whatever batch comes, so a row goes back when the event of an
    older batch is processed late. Runs in which that never happens (`inOrderPipeline`) are exactly
    those in which each row always has the greatest observation time of its agent, and in these the
    fleet state does not depend on the order of the events. -/

namespace FleetPulse
open Values Interleaving

/-- The time of the sample that the batch is shown with. -/
def latestAt (batch : TelemetryBatch) : Instant := (latest batch).observedAt.instant

/-- Each row has the greatest observation time over all samples of all processed batches of its
    agent, and each agent with a processed batch has a row. -/
structure Greatest (libs : Libraries) (db : Database) : Prop where
  attained : ∀ row ∈ db.fleetState.rows, ∃ batch ∈ processedBatches libs db,
    batch.agentId = row.agentId ∧ ∃ sample ∈ batch.samples, sample.observedAt.instant = row.observedAt
  bound : ∀ row ∈ db.fleetState.rows, ∀ batch ∈ processedBatches libs db,
    batch.agentId = row.agentId → ∀ sample ∈ batch.samples,
      sample.observedAt.instant ≤ row.observedAt
  present : ∀ batch ∈ processedBatches libs db, ∃ row ∈ db.fleetState.rows,
    row.agentId = batch.agentId

section
variable {libs : Libraries} {db : Database}

theorem StateMirrors.find? (hm : StateMirrors libs db) (agentId : String) :
    db.fleetState.find? agentId = (LastWrite.last TelemetryBatch.agentId agentId
      (processedBatches libs db)).map fleetStateOf := congrFun hm.state agentId

/-- A row is that of the last processed batch of its agent. -/
theorem StateMirrors.last_of_row (hm : StateMirrors libs db) {row : FleetStateRecord}
    (hrow : row ∈ db.fleetState.rows) : ∃ batch, LastWrite.last TelemetryBatch.agentId row.agentId
      (processedBatches libs db) = some batch ∧ fleetStateOf batch = row := by
  have hfind := Table.find?_eq_some_iff.mpr ⟨hrow, rfl⟩
  rw [hm.find?] at hfind
  exact Option.map_eq_some_iff.mp hfind

theorem StateMirrors.row_of_batch (hm : StateMirrors libs db) {batch : TelemetryBatch}
    (hb : batch ∈ processedBatches libs db) :
    ∃ row ∈ db.fleetState.rows, row.agentId = batch.agentId := by
  obtain ⟨last, hlast⟩ := LastWrite.exists_last TelemetryBatch.agentId hb rfl
  have hfind := hm.find? batch.agentId
  rw [hlast] at hfind
  obtain ⟨hmem, hkey⟩ := Table.find?_eq_some_iff.mp hfind
  exact ⟨_, hmem, hkey⟩

/-- After batches in order every row has the greatest time. -/
theorem StateMirrors.greatest (hm : StateMirrors libs db)
    (ho : LastWrite.InOrder TelemetryBatch.agentId latestAt (processedBatches libs db)) :
    Greatest libs db where
  attained := fun row hrow => by
    obtain ⟨batch, hlast, rfl⟩ := hm.last_of_row hrow
    obtain ⟨hmem, hkey⟩ := LastWrite.mem_of_last hlast
    exact ⟨batch, hmem, hkey, latest batch, latest_mem batch, rfl⟩
  bound := fun row hrow batch hb hagent sample hs => by
    obtain ⟨last, hlast, rfl⟩ := hm.last_of_row hrow
    calc sample.observedAt.instant ≤ latestAt batch := observedAt_le_latest batch sample hs
      _ ≤ latestAt last := LastWrite.stamp_le_last ho hlast batch hb hagent
  present := fun _ hb => hm.row_of_batch hb

end

/-! ### The condition -/

/-- A commit of `process_event` for a new event finds no row of the agent that is newer than the
    batch. -/
def NotOlder {ι : Type} (libs : Libraries) (s : Shared ι) (e : Event) : Prop :=
  ∀ id event, e = .advanced id (.processing event) .invalidating →
    event.eventId ∉ s.db.processedEvents.keys → ∀ batch row,
    storedBatch libs event.aggregateId s.db = .ok batch →
    s.db.fleetState.find? batch.agentId = some row → row.observedAt ≤ latestAt batch

/-- The pipeline without commits that would set a row back. -/
def inOrderPipeline {ι : Type} [DecidableEq ι] (libs : Libraries) (settings : ι → WorkerSettings) :
    Program ι (Shared ι) Local Event :=
  (pipeline libs settings).restrict (fun _ s _ e => NotOlder libs s e)

section
variable {ι : Type} [DecidableEq ι] {libs : Libraries} {settings : ι → WorkerSettings}

/-- What a step does to the processed batches: nothing, or one more batch of an event that is new. -/
theorem Step.processedBatches {s s' : Shared ι} {l l' : Local} {e : Event} {i : ι}
    (h : Step libs settings i s l e s' l') (hd : Durable libs s.toStores)
    (hl : assertion libs s.toStores l) (hb : Backed libs s.db) :
    processedBatches libs s'.db = processedBatches libs s.db ∨
    ∃ id event batch, e = .advanced id (.processing event) .invalidating ∧
      event.eventId ∉ s.db.processedEvents.keys ∧
      storedBatch libs event.aggregateId s.db = .ok batch ∧
      processedBatches libs s'.db = processedBatches libs s.db ++ [batch] := by
  have hg := Step.grows h
  rcases Step.processes h hd hl with ⟨hprocessed, -⟩ |
    ⟨id, event, batch, row, he, hnew, hbatch, -, hevent, hrows, -⟩
  · exact Or.inl (processedBatches_same hg hb hprocessed).1
  · exact Or.inr ⟨id, event, batch, he, hnew, hbatch,
      (processedBatches_concat hg hb hrows hevent).1⟩

/-- A step that meets the condition keeps the batches in order. -/
theorem Step.inOrder {s s' : Shared ι} {l l' : Local} {e : Event} {i : ι}
    (h : Step libs settings i s l e s' l') (hd : Durable libs s.toStores)
    (hl : assertion libs s.toStores l) (hm : StateMirrors libs s.db) (hc : NotOlder libs s e)
    (ho : LastWrite.InOrder TelemetryBatch.agentId latestAt (FleetPulse.processedBatches libs s.db)) :
    LastWrite.InOrder TelemetryBatch.agentId latestAt (FleetPulse.processedBatches libs s'.db) := by
  rcases Step.processedBatches h hd hl hm.backed with hsame | ⟨id, event, batch, he, hnew, hbatch, hnext⟩
  · rw [hsame]; exact ho
  · rw [hnext, LastWrite.inOrder_concat_iff]
    refine ⟨ho, fun last hlast => ?_⟩
    refine hc id event he hnew batch (fleetStateOf last) hbatch ?_
    rw [hm.find?, hlast]; rfl

theorem inOrder_run {t : List (ι × Event)} {c : Config ι (Shared ι) Local}
    (h : Run (inOrderPipeline libs settings) t c) :
    LastWrite.InOrder TelemetryBatch.agentId latestAt (processedBatches libs c.shared.db) := by
  refine h.invariant (I := fun s => LastWrite.InOrder TelemetryBatch.agentId latestAt
    (processedBatches libs s.db)) ?_ ?_
  · exact List.Pairwise.nil
  intro t s loc i e s' l' hrun ho hs
  obtain ⟨hd, hl⟩ := durable_run hrun.of_restrict
  exact Step.inOrder hs.1 hd (hl i) (stateMirrors_run hrun.of_restrict) hs.2 ho

/-- A commit that sets a row back leaves it below a sample that is processed already. -/
theorem Step.notOlder_of_greatest {s s' : Shared ι} {l l' : Local} {e : Event} {i : ι}
    (h : Step libs settings i s l e s' l') (hm : StateMirrors libs s.db)
    (hgreatest : Greatest libs s'.db) : NotOlder libs s e := by
  rintro id event rfl hnew batch row hbatch hrow
  have hg := Step.grows h
  rcases processEvent_cases (Step.committed h) with
    ⟨hmem, -⟩ | ⟨batch', _, _, -, -, hbatch', -, -, hdb⟩
  · exact absurd hmem hnew
  obtain rfl : batch = batch' := Except.ok.inj (hbatch.symm.trans hbatch')
  have hfind : s'.db.fleetState.find? batch.agentId = some (fleetStateOf batch) := by
    rw [hdb, find?_upsertFleetState]; exact Function.update_self ..
  obtain ⟨hmem, hkey⟩ := Table.find?_eq_some_iff.mp hrow
  obtain ⟨last, hlast, rfl⟩ := hm.last_of_row hmem
  obtain ⟨hprocessed, -⟩ := LastWrite.mem_of_last hlast
  exact hgreatest.bound (fleetStateOf batch) (Table.mem_of_find? hfind) last
    ((processedBatches_mono hg hm.backed).subset hprocessed) hkey (latest last) (latest_mem last)

/-- A run is in order exactly if the batches it processed came in order for each agent. -/
theorem inOrder_iff {t : List (ι × Event)} {c : Config ι (Shared ι) Local}
    (h : Run (pipeline libs settings) t c) : Run (inOrderPipeline libs settings) t c ↔
      LastWrite.InOrder TelemetryBatch.agentId latestAt (processedBatches libs c.shared.db) := by
  refine ⟨inOrder_run, fun ho => h.restrict ?_⟩
  rintro t₁ i e t₂ s loc s' l' rfl hrun hstep hsteps id event rfl hnew batch row hbatch hrow
  obtain ⟨hd, hl⟩ := durable_run hrun
  have hm := stateMirrors_run hrun
  have hpre := processedBatches_mono (steps_grow hsteps)
    (stateMirrors_run (hrun.snoc hstep)).backed
  rcases Step.processes hstep hd (hl i) with ⟨hsame, -⟩ |
    ⟨_, _, batch', r, he, -, hbatch', -, hevent, hrows, -⟩
  · rcases processEvent_cases (Step.committed hstep) with
      ⟨hmem, -⟩ | ⟨_, _, _, -, -, -, hrows, -, hdb⟩
    · exact absurd hmem hnew
    · rw [← hsame, hdb] at hrows
      simp at hrows
  · cases he
    obtain rfl : batch = batch' := Except.ok.inj (hbatch.symm.trans hbatch')
    have hnext := (processedBatches_concat (Step.grows hstep) hm.backed hrows hevent).1
    rw [hm.find?] at hrow
    obtain ⟨last, hlast, rfl⟩ := Option.map_eq_some_iff.mp hrow
    have hconcat : LastWrite.InOrder TelemetryBatch.agentId latestAt
        (processedBatches libs s.db ++ [batch]) := by
      rw [← hnext]; exact List.Pairwise.sublist hpre.sublist ho
    exact (LastWrite.inOrder_concat_iff.mp hconcat).2 last hlast

/-- The rows of an earlier moment are not ahead of those of a later one. -/
theorem observedAt_le {c c' : Config ι (Shared ι) Local} {t t' : List (ι × Event)}
    (h : Run (inOrderPipeline libs settings) t c)
    (hs : Steps (inOrderPipeline libs settings) c t' c') {row : FleetStateRecord}
    (hrow : row ∈ c.shared.db.fleetState.rows) : ∃ row' ∈ c'.shared.db.fleetState.rows,
      row'.agentId = row.agentId ∧ row.observedAt ≤ row'.observedAt := by
  have hm := stateMirrors_run h.of_restrict
  have hm' := stateMirrors_run (h.extend hs).of_restrict
  have hgreatest := hm'.greatest (inOrder_run (h.extend hs))
  obtain ⟨last, hlast, rfl⟩ := hm.last_of_row hrow
  obtain ⟨hprocessed, -⟩ := LastWrite.mem_of_last hlast
  have hprocessed' := (processedBatches_mono (steps_grow hs.of_restrict) hm.backed).subset hprocessed
  obtain ⟨row', hrow', hagent⟩ := hgreatest.present last hprocessed'
  exact ⟨row', hrow', hagent, hgreatest.bound row' hrow' last hprocessed' hagent.symm (latest last)
    (latest_mem last)⟩

/-- Two runs that processed the same events, with the same batches behind them. -/
def SameEvents (libs : Libraries) (db db' : Database) : Prop :=
  (∀ id, id ∈ db.processedEvents.keys ↔ id ∈ db'.processedEvents.keys) ∧
    ∀ id ∈ db.processedEvents.keys, eventBatch libs db id = eventBatch libs db' id

theorem mem_processedBatches {db : Database} {batch : TelemetryBatch} :
    batch ∈ processedBatches libs db ↔
      ∃ id ∈ db.processedEvents.keys, eventBatch libs db id = some batch := by
  simp [processedBatches, Table.keys]

theorem SameEvents.mem_iff {db db' : Database} (h : SameEvents libs db db') (batch : TelemetryBatch) :
    batch ∈ processedBatches libs db ↔ batch ∈ processedBatches libs db' := by
  rw [mem_processedBatches, mem_processedBatches]
  constructor
  · rintro ⟨id, hid, hbatch⟩
    exact ⟨id, (h.1 id).mp hid, by rw [← h.2 id hid]; exact hbatch⟩
  · rintro ⟨id, hid, hbatch⟩
    have hid' := (h.1 id).mpr hid
    exact ⟨id, hid', by rw [h.2 id hid']; exact hbatch⟩

/-- No two processed batches of an agent share a sample time. -/
def DistinctTimes (batches : List TelemetryBatch) : Prop :=
  ∀ a ∈ batches, ∀ b ∈ batches, a.agentId = b.agentId →
    ∀ x ∈ a.samples, ∀ y ∈ b.samples, x.observedAt.instant = y.observedAt.instant → a = b

/-- NEVER BACK: in runs whose commits find no newer row of their agent, every row always has the
    greatest observation time of its agent and never goes back; a run in which every row always has
    the greatest time is such a run; and two such runs that processed the same events, with distinct
    sample times, end with the same fleet state. -/
theorem fleet_state_never_goes_back :
    (∀ t (c : Config ι (Shared ι) Local), Run (inOrderPipeline libs settings) t c →
      Greatest libs c.shared.db ∧ ∀ t' c', Steps (inOrderPipeline libs settings) c t' c' →
        ∀ row ∈ c.shared.db.fleetState.rows, ∃ row' ∈ c'.shared.db.fleetState.rows,
          row'.agentId = row.agentId ∧ row.observedAt ≤ row'.observedAt) ∧
    (∀ t (c : Config ι (Shared ι) Local), Run (pipeline libs settings) t c →
      (∀ t₁ t₂ c₁, t = t₁ ++ t₂ → Run (pipeline libs settings) t₁ c₁ →
        Steps (pipeline libs settings) c₁ t₂ c → Greatest libs c₁.shared.db) →
      Run (inOrderPipeline libs settings) t c) ∧
    ∀ t (c : Config ι (Shared ι) Local) t' (c' : Config ι (Shared ι) Local),
      Run (inOrderPipeline libs settings) t c → Run (inOrderPipeline libs settings) t' c' →
      SameEvents libs c.shared.db c'.shared.db →
      DistinctTimes (processedBatches libs c.shared.db) →
      c.shared.db.fleetState.find? = c'.shared.db.fleetState.find? := by
  refine ⟨fun t c h => ⟨?_, fun t' c' hs row => observedAt_le h hs⟩, ?_, ?_⟩
  · exact (stateMirrors_run h.of_restrict).greatest (inOrder_run h)
  · intro t c h hgreatest
    refine h.restrict ?_
    rintro t₁ i e t₂ s loc s' l' rfl hrun hstep hsteps
    refine Step.notOlder_of_greatest hstep (stateMirrors_run hrun) ?_
    exact hgreatest (t₁ ++ [(i, e)]) t₂ _ (List.append_cons ..) (hrun.snoc hstep) hsteps
  · intro t c t' c' h h' hsame hdistinct
    rw [(stateMirrors_run h.of_restrict).state, (stateMirrors_run h'.of_restrict).state]
    funext agentId
    rw [LastWrite.last_eq_of_mem_iff (inOrder_run h) (inOrder_run h') hsame.mem_iff]
    exact fun a ha b hb hagent hat => hdistinct a ha b hb hagent (latest a) (latest_mem a) (latest b)
      (latest_mem b) hat

end

/-- The events of both batches are published in the order of their ingestion, and one worker
    processes them. -/
def twoBatchActions (first second : TelemetryBatch) : List (Unit × Action) :=
  (ingestActions first 5 (uniformId 3) ++ ingestActions second 6 (uniformId 4) ++
    publishActions [outboxEvent 5 (uniformId 3) "request" first,
      outboxEvent 6 (uniformId 4) "request" second] ++ readActions ++ handleActions ++
    handleActions).map (fun a => ((), a))

/-- The older batch first: the row has the greatest time. -/
theorem fleet_state_in_order :
    ∃ t c, Run (inOrderPipeline Libraries.canonical (fun _ : Unit => smallSettings)) t c ∧
      processedBatches Libraries.canonical c.shared.db = [olderBatch, newerBatch] ∧
      Greatest Libraries.canonical c.shared.db := by
  have hrun : (schedule Libraries.canonical (fun _ : Unit => smallSettings)
      (twoBatchActions olderBatch newerBatch) [] (initial Unit)).any (fun r => decide
        (processedBatches Libraries.canonical r.2.shared.db = [olderBatch, newerBatch])) = true := by
    decide +kernel
  obtain ⟨t, c, hrun, hcheck⟩ := exists_run hrun
  have hbatches := of_decide_eq_true hcheck
  have ho : LastWrite.InOrder TelemetryBatch.agentId latestAt [olderBatch, newerBatch] := by
    unfold LastWrite.InOrder; decide +kernel
  have hinOrder := (inOrder_iff hrun).mpr (hbatches ▸ ho)
  exact ⟨t, c, hinOrder, hbatches, (fleet_state_never_goes_back.1 t c hinOrder).1⟩

/-- The newer batch first: the late event of the older one sets the row back. -/
theorem fleet_state_goes_back :
    ∃ t c, Run (pipeline Libraries.canonical (fun _ : Unit => smallSettings)) t c ∧
      ∃ row ∈ c.shared.db.fleetState.rows, ∃ batch ∈ processedBatches Libraries.canonical c.shared.db,
        batch.agentId = row.agentId ∧
        ∃ sample ∈ batch.samples, row.observedAt < sample.observedAt.instant := by
  have hrun : (schedule Libraries.canonical (fun _ : Unit => smallSettings)
      (twoBatchActions newerBatch olderBatch) [] (initial Unit)).any (fun r => decide
        (processedBatches Libraries.canonical r.2.shared.db = [newerBatch, olderBatch] ∧
          r.2.shared.db.fleetState.rows = [fleetStateOf olderBatch])) = true := by
    decide +kernel
  obtain ⟨t, c, hrun, hcheck⟩ := exists_run hrun
  obtain ⟨hbatches, hrows⟩ := of_decide_eq_true hcheck
  refine ⟨t, c, hrun, fleetStateOf olderBatch, by rw [hrows]; exact List.mem_singleton_self _,
    newerBatch, by rw [hbatches]; exact List.mem_cons_self .., rfl, latest newerBatch,
    latest_mem newerBatch, ?_⟩
  decide +kernel

end FleetPulse
