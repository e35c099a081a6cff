import FleetPulse.Lib.LastWrite
import FleetPulse.Lib.Relational
import FleetPulse.Pipeline.Durability

/-! `list_agents` over every run: what the directory shows is what the committed requests say, whatever
    else goes on.

    The query joins the agents with their batches and groups by agent. A request counts as soon as its
    transaction has committed, whether or not its answer arrives; a repeated batch id changes the host
    name and not the count. -/

namespace FleetPulse
open Values Interleaving

/-! ### list_agents -/

structure AgentSummary where
  agentId : String
  hostname : String
  firstSeenAt : Instant
  lastSeenAt : Instant
  batchCount : ℕ
  deriving DecidableEq

/-- The columns of one group. -/
def agentSummary (rows : List (AgentRecord × Option TelemetryBatchRecord)) : Option AgentSummary :=
  rows.head?.map (fun r => ⟨r.1.agentId, r.1.hostname, r.1.firstSeenAt, r.1.lastSeenAt,
    Relational.count rows⟩)

/-- `list_agents`: joined, grouped by the key of the agents, and ordered by it. -/
def listAgents (libs : Libraries) (db : Database) : List AgentSummary :=
  let rows := Relational.leftJoin (fun (agent : AgentRecord) (batch : TelemetryBatchRecord) =>
    batch.agentId = agent.agentId) db.agents.rows db.telemetryBatches.rows
  let summaries := (Relational.groupBy (fun r => r.1.agentId) rows).filterMap agentSummary
  summaries.insertionSort (fun a b => libs.collate a.agentId b.agentId = true)

/-- The summary of an agent. -/
def summaryOf (db : Database) (agent : AgentRecord) : AgentSummary :=
  ⟨agent.agentId, agent.hostname, agent.firstSeenAt, agent.lastSeenAt,
    (db.telemetryBatches.rows.filter (fun batch => batch.agentId = agent.agentId)).length⟩

/-- The query lists each agent once, with the number of its batches. -/
theorem listAgents_perm (libs : Libraries) (db : Database) :
    (listAgents libs db).Perm (db.agents.rows.map (summaryOf db)) := by
  let on (agent : AgentRecord) (batch : TelemetryBatchRecord) : Bool :=
    batch.agentId = agent.agentId
  have hgroups := (@Relational.groupBy_leftJoin _ _ _ _ on _ _ db.telemetryBatches.rows
    db.agents.nodup).filterMap agentSummary
  have hsummary : ∀ agent, agentSummary (Relational.joined on db.telemetryBatches.rows agent) =
      some (summaryOf db agent) := by
    intro agent
    obtain ⟨r, hhead, hfst⟩ := Option.map_eq_some_iff.mp
      (@Relational.head?_joined _ _ on db.telemetryBatches.rows agent)
    rw [agentSummary, hhead, Option.map_some, Relational.count_joined, hfst]
    rfl
  have hsummaries : agentSummary ∘ Relational.joined on db.telemetryBatches.rows =
      some ∘ summaryOf db := funext hsummary
  rw [List.filterMap_map, hsummaries, List.filterMap_eq_map] at hgroups
  exact (List.perm_insertionSort _ _).trans hgroups

theorem listAgents_sorted (libs : Libraries) (db : Database) :
    (listAgents libs db).Pairwise (fun a b => libs.collate a.agentId b.agentId = true) := by
  have htotal : Std.Total (fun a b : AgentSummary => libs.collate a.agentId b.agentId = true) :=
    ⟨fun a b => by simpa using libs.collate_total a.agentId b.agentId⟩
  have htrans : IsTrans AgentSummary (fun a b => libs.collate a.agentId b.agentId = true) :=
    ⟨fun a b c => libs.collate_trans a.agentId b.agentId c.agentId⟩
  exact List.pairwise_insertionSort _ _

/-! ### The requests of a run -/

/-- The batch of a committed request, with its answer. -/
def Event.ingested? : Event → Option (TelemetryBatch × IngestionResponse)
  | .ingested batch _ r => some (batch, r)
  | _ => none

variable {ι : Type}

/-- The batches of the committed requests, in order. -/
def ingestedBatches (t : List (ι × Event)) : List TelemetryBatch :=
  t.filterMap (fun p => p.2.ingested?.map Prod.fst)

/-- Those of them that were new. -/
def acceptedBatches (t : List (ι × Event)) : List TelemetryBatch :=
  t.filterMap (fun p => (p.2.ingested?.filter (fun r => r.2.status = .accepted)).map Prod.fst)

/-- The tables are what the requests have made of them. -/
structure Listed (t : List (ι × Event)) (db : Database) : Prop where
  batches : db.telemetryBatches.rows.map TelemetryBatchRecord.agentId =
    (acceptedBatches t).map TelemetryBatch.agentId
  agents : ∀ agentId, (db.agents.find? agentId).map AgentRecord.hostname =
    (LastWrite.last TelemetryBatch.agentId agentId (ingestedBatches t)).map TelemetryBatch.hostname

section
variable [DecidableEq ι] {libs : Libraries} {settings : ι → WorkerSettings} {i : ι}
  {s s' : Shared ι} {l l' : Local} {e : Event} {t : List (ι × Event)}

/-- A step commits a request, or leaves agents and batches alone. -/
theorem Step.ingests (h : Step libs settings i s l e s' l') :
    (∃ now createdAt eventId correlationId batch r, e.ingested? = some (batch, r) ∧
      ingestBatch now createdAt eventId correlationId batch s.db = .ok (s'.db, r)) ∨
    (e.ingested? = none ∧ s'.db.agents = s.db.agents ∧
      s'.db.telemetryBatches = s.db.telemetryBatches) := by
  cases h with
  | api h => cases h with
    | commit hingest => exact .inl ⟨_, _, _, _, _, _, rfl, hingest⟩
    | _ => exact .inr ⟨rfl, rfl, rfl⟩
  | relay h => cases h <;> exact .inr ⟨rfl, rfl, rfl⟩
  | worker h => cases h with
    | advance _ ha => exact .inr ⟨rfl, (advance_frame ha).1, (advance_frame ha).2.1⟩
    | _ => exact .inr ⟨rfl, rfl, rfl⟩
  | reader h =>
    rw [h.frame.1]
    cases h <;> exact .inr ⟨rfl, rfl, rfl⟩
  | expire | stop => exact .inr ⟨rfl, rfl, rfl⟩

omit [DecidableEq ι] in
theorem ingestedBatches_concat : ingestedBatches (t ++ [(i, e)]) =
    ingestedBatches t ++ (e.ingested?.map Prod.fst).toList := by
  rw [ingestedBatches, List.filterMap_append]
  cases h : e.ingested? <;> simp [h, ingestedBatches]

omit [DecidableEq ι] in
theorem acceptedBatches_concat : acceptedBatches (t ++ [(i, e)]) = acceptedBatches t ++
    ((e.ingested?.filter (fun r => r.2.status = .accepted)).map Prod.fst).toList := by
  rw [acceptedBatches, List.filterMap_append]
  cases h : (e.ingested?.filter (fun r => r.2.status = .accepted)) <;> simp [h, acceptedBatches]

/-- The upsert leaves the host name of the last request. -/
theorem hostname_upsertAgent (now : Instant) (batch : TelemetryBatch)
    (agents : Table AgentRecord.agentId) (agentId : String) :
    ((upsertAgent now batch agents).find? agentId).map AgentRecord.hostname =
      if batch.agentId = agentId then some batch.hostname
      else (agents.find? agentId).map AgentRecord.hostname := by
  rw [upsertAgent, Table.find?_upsert]
  by_cases h : batch.agentId = agentId
  · rw [if_pos h.symm, if_pos h]
    cases agents.find? agentId <;> rfl
  · rw [if_neg (Ne.symm h), if_neg h]

/-- One step. -/
theorem Listed.step (h : Listed t s.db) (hstep : Step libs settings i s l e s' l') :
    Listed (t ++ [(i, e)]) s'.db := by
  rcases Step.ingests hstep with ⟨now, _, _, _, batch, r, he, hingest⟩ | ⟨he, hagents, hbatches⟩
  · have hupsert : s'.db.agents = upsertAgent now batch s.db.agents := by
      rcases ingestBatch_cases hingest with ⟨-, -, hdb⟩ | ⟨_, _, _, _, -, -, -, -, -, -, hdb⟩ <;>
        rw [hdb]
    refine ⟨?_, fun agentId => ?_⟩
    · rw [acceptedBatches_concat, he]
      rcases ingestBatch_cases hingest with ⟨-, rfl, hdb⟩ | ⟨_, _, _, _, -, rfl, -, -, hrows, -, hdb⟩
      · rw [hdb]
        simpa [Option.filter] using h.batches
      · rw [hdb]
        simp [Option.filter, hrows, h.batches, batchRecord]
    · rw [ingestedBatches_concat, he, hupsert, hostname_upsertAgent, h.agents]
      simp only [Option.map_some, Option.toList_some, LastWrite.last_concat]
      split <;> rfl
  · refine ⟨?_, fun agentId => ?_⟩
    · rw [acceptedBatches_concat, he, hbatches]
      simpa using h.batches
    · rw [ingestedBatches_concat, he, hagents]
      simpa using h.agents agentId

/-- Every run. -/
theorem listed_run {c : Config ι (Shared ι) Local} (h : Run (pipeline libs settings) t c) :
    Listed t c.shared.db := by
  refine Run.induct (p := fun t c => Listed t c.shared.db) ?_ ?_ h
  · rintro c ⟨hshared, -⟩
    rw [hshared]
    exact ⟨rfl, fun _ => rfl⟩
  · exact fun _ _ _ _ _ _ _ _ hlisted hstep => hlisted.step hstep

theorem length_filter_eq_count {α κ : Type} [DecidableEq κ] (key : α → κ) (l : List α) (k : κ) :
    (l.filter (fun a => key a = k)).length = (l.map key).count k := by
  rw [List.count, List.countP_map, List.countP_eq_length_filter]
  congr 1

theorem sum_count {κ : Type} [DecidableEq κ] {keys l : List κ} (hnodup : keys.Nodup)
    (hmem : ∀ k ∈ l, k ∈ keys) : (keys.map (fun k => l.count k)).sum = l.length := by
  rw [← List.sum_toFinset _ hnodup]
  have hall : ∀ k ∈ (l : Multiset κ), k ∈ keys.toFinset :=
    fun k hk => List.mem_toFinset.mpr (hmem k hk)
  simpa only [Multiset.coe_count, Multiset.coe_card] using Multiset.sum_count_eq_card hall

/-- THE DIRECTORY: in every reachable state `list_agents` shows, in order and once each, the agents with
    a committed request, each with the host name of its last one and with the number of those that
    were new; the counts add up to all of them. -/
theorem agents_listed {c : Config ι (Shared ι) Local} (h : Run (pipeline libs settings) t c) :
    (listAgents libs c.shared.db).Pairwise (fun a b => libs.collate a.agentId b.agentId = true) ∧
    ((listAgents libs c.shared.db).map AgentSummary.agentId).Nodup ∧
    ((listAgents libs c.shared.db).map AgentSummary.batchCount).sum = (acceptedBatches t).length ∧
    (∀ batch ∈ ingestedBatches t, ∃ summary ∈ listAgents libs c.shared.db,
      summary.agentId = batch.agentId) ∧
    ∀ summary ∈ listAgents libs c.shared.db, ∃ batch,
      LastWrite.last TelemetryBatch.agentId summary.agentId (ingestedBatches t) = some batch ∧
      summary.hostname = batch.hostname ∧
      summary.batchCount =
        ((acceptedBatches t).filter (fun b => b.agentId = summary.agentId)).length := by
  have hlisted := listed_run h
  obtain ⟨hdurable, -⟩ := durable_run h
  have hperm := listAgents_perm libs c.shared.db
  have hcount : ∀ agent, (summaryOf c.shared.db agent).batchCount =
      ((acceptedBatches t).map TelemetryBatch.agentId).count agent.agentId := by
    intro agent
    rw [← hlisted.batches, ← length_filter_eq_count]
    rfl
  refine ⟨listAgents_sorted libs c.shared.db, ?_, ?_, fun batch hbatch => ?_, fun summary hmem => ?_⟩
  · rw [(hperm.map _).nodup_iff, List.map_map]
    exact c.shared.db.agents.nodup
  · have hsum := (hperm.map AgentSummary.batchCount).sum_eq
    rw [List.map_map] at hsum
    have hknown : ∀ k ∈ (acceptedBatches t).map TelemetryBatch.agentId,
        k ∈ c.shared.db.agents.keys := by
      intro k hk
      rw [← hlisted.batches] at hk
      obtain ⟨record, hrecord, rfl⟩ := List.mem_map.mp hk
      exact hdurable.known record hrecord
    rw [hsum, ← List.length_map TelemetryBatch.agentId,
      ← sum_count c.shared.db.agents.nodup hknown, List.map_map]
    exact congrArg List.sum (List.map_congr_left (fun agent _ => hcount agent))
  · obtain ⟨last, hlast⟩ := LastWrite.exists_last TelemetryBatch.agentId hbatch rfl
    have hagent := hlisted.agents batch.agentId
    rw [hlast] at hagent
    obtain ⟨agent, hfind, -⟩ := Option.map_eq_some_iff.mp hagent
    obtain ⟨hrow, hid⟩ := Table.find?_eq_some_iff.mp hfind
    exact ⟨summaryOf c.shared.db agent, hperm.mem_iff.mpr (List.mem_map_of_mem hrow), hid⟩
  · obtain ⟨agent, hrow, rfl⟩ := List.mem_map.mp (hperm.mem_iff.mp hmem)
    have hagent := hlisted.agents agent.agentId
    rw [Table.find?_eq_some_iff.mpr ⟨hrow, rfl⟩] at hagent
    obtain ⟨batch, hlast, hname⟩ := Option.map_eq_some_iff.mp hagent.symm
    refine ⟨batch, hlast, hname.symm, ?_⟩
    rw [hcount, length_filter_eq_count]
    rfl

end

/-- A repeated batch id under another agent: both agents are listed, and only the first batch counts. -/
theorem agents_listed_reused : ∃ t c,
    Run (pipeline Libraries.canonical (fun _ : Unit => smallSettings)) t c ∧
    (ingestedBatches t).map TelemetryBatch.agentId = ["node-1", "node-2"] ∧
    ((listAgents Libraries.canonical c.shared.db).map AgentSummary.batchCount).sum = 1 := by
  have hrun : (schedule Libraries.canonical (fun _ : Unit => smallSettings)
      ((ingestActions olderBatch 5 (uniformId 3) ++ ingestActions reusedBatch 6 (uniformId 4)).map
        (fun a => ((), a))) [] (initial Unit)).any
      (fun r => decide ((ingestedBatches r.1).map TelemetryBatch.agentId = ["node-1", "node-2"] ∧
        (acceptedBatches r.1).length = 1)) = true := by decide +kernel
  obtain ⟨t, c, hrun, hcheck⟩ := exists_run hrun
  obtain ⟨hagents, hone⟩ := of_decide_eq_true hcheck
  exact ⟨t, c, hrun, hagents, (agents_listed hrun).2.2.1.trans hone⟩

end FleetPulse
