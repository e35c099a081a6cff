import FleetPulse.Pipeline.Durability

/-! When an agent was first and last seen.

    `ingest_batch` reads the clock before its transaction begins, and the upsert sets `last_seen_at`
    to that reading whatever the row holds. Of two requests of an agent the one that read the clock
    first may commit last, and then the row goes back, even behind its own `first_seen_at`. Runs
    without such commits (`visiblePipeline`) are exactly those in which no row goes back. -/

namespace FleetPulse
open Values Interleaving

/-- No row was last seen before it was first seen. -/
def SeenInOrder (db : Database) : Prop := ∀ row ∈ db.agents.rows, row.firstSeenAt ≤ row.lastSeenAt

/-- Every agent is still there, first seen at the same time. -/
def KeepsFirstSeen (db db' : Database) : Prop :=
  ∀ row ∈ db.agents.rows, ∃ row' ∈ db'.agents.rows, row'.agentId = row.agentId ∧
    row'.firstSeenAt = row.firstSeenAt

/-- Every agent is still there, last seen no earlier. -/
def KeepsLastSeen (db db' : Database) : Prop :=
  ∀ row ∈ db.agents.rows, ∃ row' ∈ db'.agents.rows, row'.agentId = row.agentId ∧
    row.lastSeenAt ≤ row'.lastSeenAt

/-- The clock reading of a request. -/
def readingOf : Event → Option Instant
  | .received now _ _ => some now
  | _ => none

/-- The clock never goes backwards from one request to the next. -/
def ClockRises {ι : Type} (t : List (ι × Event)) : Prop :=
  (t.filterMap (fun x => readingOf x.2)).Pairwise (· ≤ ·)

/-- A request that commits finds no row of its agent that was seen after it had read the clock. -/
def NotBehind {ι : Type} (s : Shared ι) : Local → Event → Prop
  | .ingesting now batch _, .ingested _ _ _ =>
      ∀ row ∈ s.db.agents.find? batch.agentId, row.lastSeenAt ≤ now
  | _, _ => True

instance {ι : Type} (s : Shared ι) (l : Local) (e : Event) : Decidable (NotBehind s l e) := by
  unfold NotBehind; split <;> infer_instance

/-- The pipeline without requests that are behind the row of their agent. -/
def visiblePipeline {ι : Type} [DecidableEq ι] (libs : Libraries) (settings : ι → WorkerSettings) :
    Program ι (Shared ι) Local Event :=
  (pipeline libs settings).restrict (fun _ s l e => NotBehind s l e)

/-! ### The upsert -/

section
variable {now : Instant} {batch : TelemetryBatch} {agents : Table AgentRecord.agentId}
  {row : AgentRecord}

/-- The rows of the other agents stay; the row of the agent is the old one seen now, or new. -/
theorem find?_upsertAgent (now : Instant) (batch : TelemetryBatch)
    (agents : Table AgentRecord.agentId) (agentId : String) :
    (upsertAgent now batch agents).find? agentId = if agentId = batch.agentId then
      some (((agents.find? agentId).map
        (fun r => ⟨r.agentId, batch.hostname, r.firstSeenAt, now⟩)).getD
          ⟨batch.agentId, batch.hostname, now, now⟩)
    else agents.find? agentId := Table.find?_upsert _ _ _ _ _

/-- What the upsert makes of a row. -/
theorem exists_upsertAgent (now : Instant) (batch : TelemetryBatch) (hrow : row ∈ agents.rows) :
    ∃ row' ∈ (upsertAgent now batch agents).rows, row'.agentId = row.agentId ∧
      row'.firstSeenAt = row.firstSeenAt ∧
      row'.lastSeenAt = if row.agentId = batch.agentId then now else row.lastSeenAt := by
  have hfind := Table.find?_eq_some_iff.mpr ⟨hrow, rfl⟩
  have hnext := find?_upsertAgent now batch agents row.agentId
  rw [hfind] at hnext
  split at hnext
  · next hid => exact ⟨_, Table.mem_of_find? hnext, rfl, rfl, by rw [if_pos hid]; rfl⟩
  · next hid => exact ⟨_, Table.mem_of_find? hnext, rfl, rfl, by rw [if_neg hid]⟩

/-- Where a row after the upsert comes from. -/
theorem mem_upsertAgent (hrow : row ∈ (upsertAgent now batch agents).rows) :
    row ∈ agents.rows ∨ (row.lastSeenAt = now ∧ (row.firstSeenAt = now ∨
      ∃ old ∈ agents.find? batch.agentId, row.firstSeenAt = old.firstSeenAt)) := by
  have hfind := Table.find?_eq_some_iff.mpr ⟨hrow, rfl⟩
  rw [find?_upsertAgent] at hfind
  split at hfind
  · next hid =>
    right
    rw [← hid]
    cases hold : agents.find? row.agentId with
    | none =>
      rw [hold] at hfind
      rw [← Option.some.inj hfind]
      exact ⟨rfl, Or.inl rfl⟩
    | some old =>
      rw [hold] at hfind
      rw [← Option.some.inj hfind]
      exact ⟨rfl, Or.inr ⟨old, rfl, rfl⟩⟩
  · exact Or.inl (Table.mem_of_find? hfind)

/-- A request that is not behind keeps the order of first and last. -/
theorem seenInOrder_upsertAgent {db db' : Database} (h : SeenInOrder db)
    (hdb : db'.agents = upsertAgent now batch db.agents)
    (hbehind : ∀ row ∈ db.agents.find? batch.agentId, row.lastSeenAt ≤ now) : SeenInOrder db' := by
  intro row hrow
  rw [hdb] at hrow
  rcases mem_upsertAgent hrow with hrow | ⟨hlast, hfirst | ⟨old, hold, hfirst⟩⟩
  · exact h row hrow
  · rw [hlast, hfirst]
  · rw [hlast, hfirst]
    exact (h old (Table.mem_of_find? hold)).trans (hbehind old hold)

end

/-! ### Runs -/

theorem KeepsFirstSeen.refl (db : Database) : KeepsFirstSeen db db :=
  fun row hrow => ⟨row, hrow, rfl, rfl⟩

theorem KeepsFirstSeen.trans {a b c : Database} (h : KeepsFirstSeen a b)
    (h' : KeepsFirstSeen b c) : KeepsFirstSeen a c := by
  intro row hrow
  obtain ⟨row', hrow', hid, hfirst⟩ := h row hrow
  obtain ⟨row'', hrow'', hid', hfirst'⟩ := h' row' hrow'
  exact ⟨row'', hrow'', hid'.trans hid, hfirst'.trans hfirst⟩

theorem KeepsLastSeen.refl (db : Database) : KeepsLastSeen db db :=
  fun row hrow => ⟨row, hrow, rfl, le_rfl⟩

theorem KeepsLastSeen.trans {a b c : Database} (h : KeepsLastSeen a b)
    (h' : KeepsLastSeen b c) : KeepsLastSeen a c := by
  intro row hrow
  obtain ⟨row', hrow', hid, hlast⟩ := h row hrow
  obtain ⟨row'', hrow'', hid', hlast'⟩ := h' row' hrow'
  exact ⟨row'', hrow'', hid'.trans hid, hlast.trans hlast'⟩

section
variable {ι : Type} [DecidableEq ι] {libs : Libraries} {settings : ι → WorkerSettings}
  {s s' : Shared ι} {l l' : Local} {e : Event} {i : ι} {t : List (ι × Event)}
  {c c' : Config ι (Shared ι) Local}

/-- Only the commit of a request writes to `agents`. -/
theorem Step.agents (h : Step libs settings i s l e s' l') :
    (s'.db.agents = s.db.agents ∧ NotBehind s l e) ∨
    ∃ now batch correlationId eventId r, l = .ingesting now batch correlationId ∧
      e = .ingested batch eventId r ∧ s'.db.agents = upsertAgent now batch s.db.agents := by
  cases h with
  | api h => cases h with
    | commit hingest =>
      refine Or.inr ⟨_, _, _, _, _, rfl, rfl, ?_⟩
      rcases ingestBatch_cases hingest with ⟨-, -, rfl⟩ | ⟨_, _, _, _, -, -, -, -, -, -, rfl⟩ <;> rfl
    | _ => exact Or.inl ⟨rfl, trivial⟩
  | relay h => cases h <;> exact Or.inl ⟨rfl, trivial⟩
  | worker h => cases h with
    | advance _ ha => exact Or.inl ⟨(advance_frame ha).1, trivial⟩
    | _ => exact Or.inl ⟨rfl, trivial⟩
  | reader h =>
    rw [h.frame.1]
    cases h <;> exact Or.inl ⟨rfl, trivial⟩
  | expire => cases l <;> exact Or.inl ⟨rfl, trivial⟩
  | stop => cases l <;> exact Or.inl ⟨rfl, trivial⟩

theorem Step.keepsFirstSeen (h : Step libs settings i s l e s' l') :
    KeepsFirstSeen s.db s'.db := by
  intro row hrow
  rcases Step.agents h with ⟨hagents, -⟩ | ⟨now, batch, _, _, _, -, -, hagents⟩
  · exact ⟨row, hagents ▸ hrow, rfl, rfl⟩
  · obtain ⟨row', hrow', hid, hfirst, -⟩ := exists_upsertAgent now batch hrow
    exact ⟨row', hagents ▸ hrow', hid, hfirst⟩

/-- A step sets no agent back exactly if it is not behind. -/
theorem Step.keepsLastSeen_iff (h : Step libs settings i s l e s' l') :
    KeepsLastSeen s.db s'.db ↔ NotBehind s l e := by
  rcases Step.agents h with ⟨hagents, hbehind⟩ | ⟨now, batch, _, _, _, rfl, rfl, hagents⟩
  · exact ⟨fun _ => hbehind, fun _ row hrow => ⟨row, hagents ▸ hrow, rfl, le_rfl⟩⟩
  constructor
  · intro hkeeps row hrow
    obtain ⟨hmem, hid⟩ := Table.find?_eq_some_iff.mp hrow
    obtain ⟨row', hrow', hid', hle⟩ := hkeeps row hmem
    obtain ⟨next, hnext, hnextId, -, hlast⟩ :=
      exists_upsertAgent now batch hmem
    rw [hagents] at hrow'
    obtain rfl := (upsertAgent now batch s.db.agents).eq_of_key_eq hrow' hnext
      (hid'.trans hnextId.symm)
    rw [hlast, if_pos hid] at hle
    exact hle
  · intro hbehind row hrow
    obtain ⟨row', hrow', hid, -, hlast⟩ := exists_upsertAgent now batch hrow
    refine ⟨row', hagents ▸ hrow', hid, ?_⟩
    rw [hlast]
    split
    · next hagent => exact hbehind row (Table.find?_eq_some_iff.mpr ⟨hrow, hagent⟩)
    · exact le_rfl

theorem Step.seenInOrder (h : Step libs settings i s l e s' l') (hbehind : NotBehind s l e)
    (hseen : SeenInOrder s.db) : SeenInOrder s'.db := by
  rcases Step.agents h with ⟨hagents, -⟩ | ⟨now, batch, _, _, _, rfl, rfl, hagents⟩
  · exact fun row hrow => hseen row (hagents ▸ hrow)
  · exact seenInOrder_upsertAgent hseen hagents hbehind

/-- SEEN: in runs whose requests are never behind the row of their agent, no agent is last seen
    before it was first seen and none goes back; a run in which none goes back is such a run; and
    the time when an agent was first seen never changes in any run. -/
theorem agents_seen_in_order :
    (∀ t (c : Config ι (Shared ι) Local), Run (visiblePipeline libs settings) t c →
      SeenInOrder c.shared.db ∧ ∀ t' c', Steps (visiblePipeline libs settings) c t' c' →
        KeepsLastSeen c.shared.db c'.shared.db) ∧
    (∀ t (c : Config ι (Shared ι) Local), Run (pipeline libs settings) t c →
      (∀ t₁ t₂ t₃ c₁ c₂, t = t₁ ++ t₂ ++ t₃ → Run (pipeline libs settings) t₁ c₁ →
        Steps (pipeline libs settings) c₁ t₂ c₂ → Steps (pipeline libs settings) c₂ t₃ c →
        KeepsLastSeen c₁.shared.db c₂.shared.db) → Run (visiblePipeline libs settings) t c) ∧
    ∀ t (c : Config ι (Shared ι) Local) t' c', Run (pipeline libs settings) t c →
      Steps (pipeline libs settings) c t' c' → KeepsFirstSeen c.shared.db c'.shared.db := by
  refine ⟨fun t c h => ⟨?_, fun t' c' hs => ?_⟩, fun t c h hkeeps => h.restrict ?_,
    fun t c t' c' _ hs => ?_⟩
  · refine h.invariant (I := fun s => SeenInOrder s.db) (fun _ h => absurd h List.not_mem_nil) ?_
    rintro t s loc i e s' l' - hseen ⟨hstep, hbehind⟩
    exact Step.seenInOrder hstep hbehind hseen
  · refine hs.monotone (R := fun s s' => KeepsLastSeen s.db s'.db)
      (fun s => KeepsLastSeen.refl s.db) KeepsLastSeen.trans ?_
    rintro i s l e s' l' ⟨hstep, hbehind⟩
    exact (Step.keepsLastSeen_iff hstep).mpr hbehind
  · intro t₁ i e t₂ s loc s' l' ht hrun hstep hsteps
    exact (Step.keepsLastSeen_iff hstep).mp
      (hkeeps t₁ [(i, e)] t₂ _ _ (by simp [ht]) hrun (.single hstep) hsteps)
  · exact hs.monotone (R := fun s s' => KeepsFirstSeen s.db s'.db)
      (fun s => KeepsFirstSeen.refl s.db) KeepsFirstSeen.trans
      (fun _ _ _ _ _ _ hs => Step.keepsFirstSeen hs)

end

/-- Two requests for batches of one agent, received at 10 and at 20 and committed in the order of
    the processes. -/
def twoRequests (first second : Bool) : List (Bool × Action) :=
  [(true, .receive 10 olderBatch "request"), (false, .receive 20 newerBatch "request"),
    (first, .commit 5 (uniformId 3)), (second, .commit 6 (uniformId 4))]

/-- The requests commit in the order of their clock readings. -/
theorem agents_seen_in_order_two :
    ∃ t c, Run (visiblePipeline Libraries.canonical (fun _ : Bool => smallSettings)) t c ∧
      ClockRises t ∧ c.shared.db.agents.rows = [⟨"node-1", "host-1", 10, 20⟩] ∧
      SeenInOrder c.shared.db := by
  have hrun : (scheduleWithin Libraries.canonical (fun _ : Bool => smallSettings)
      (fun _ s l e => NotBehind s l e) (twoRequests true false) [] (initial Bool)).any
      (fun r => decide ((r.1.filterMap (fun x => readingOf x.2)).Pairwise (· ≤ ·) ∧
        r.2.shared.db.agents.rows = [⟨"node-1", "host-1", 10, 20⟩])) = true := by
    decide +kernel
  obtain ⟨t, c, hrun, hcheck⟩ := exists_run_within hrun
  obtain ⟨hclock, hrows⟩ := of_decide_eq_true hcheck
  exact ⟨t, c, hrun, hclock, hrows, (agents_seen_in_order.1 t c hrun).1⟩

/-- They commit the other way round: the agent was last seen before it was first seen. -/
theorem agent_seen_backwards :
    ∃ t c, Run (pipeline Libraries.canonical (fun _ : Bool => smallSettings)) t c ∧
      ClockRises t ∧ ∃ row ∈ c.shared.db.agents.rows, row.lastSeenAt < row.firstSeenAt := by
  have hrun : (schedule Libraries.canonical (fun _ : Bool => smallSettings)
      (twoRequests false true) [] (initial Bool)).any
      (fun r => decide ((r.1.filterMap (fun x => readingOf x.2)).Pairwise (· ≤ ·) ∧
        ∃ row ∈ r.2.shared.db.agents.rows, row.lastSeenAt < row.firstSeenAt)) = true := by
    decide +kernel
  obtain ⟨t, c, hrun, hcheck⟩ := exists_run hrun
  obtain ⟨hclock, hrow⟩ := of_decide_eq_true hcheck
  exact ⟨t, c, hrun, hclock, hrow⟩

end FleetPulse
