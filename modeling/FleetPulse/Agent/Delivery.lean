import FleetPulse.Agent.Network
import FleetPulse.Pipeline.EndToEnd
import FleetPulse.Pipeline.Scheduler

/-! Where the batches of the agent are, in every state of every run.

    A batch whose enqueue has committed is in the file, or was evicted, or is stored, and the same
    holds of the table that the connection works on, so that a commit and a crash alike find the batch
    accounted for. With the pipeline behind it: one copy, one event, one processing. -/

namespace FleetPulse
open Values Interleaving

variable {ι : Type} [DecidableEq ι]

section
variable {libs : Libraries} {settings : AgentSettings} {textBytes : Payload → ℕ}
  {workers : ι → WorkerSettings} {w w' : World ι}

/-! ### The agent and its spool -/

/-- The row has the id and the payload of the batch. -/
def SpoolRow.IsOf (row : SpoolRow) (batch : TelemetryBatch) : Prop :=
  row.batchId = batch.batchId.str ∧ row.payload = batch.modelDumpJson

def Holds (t : SpoolTable) (batch : TelemetryBatch) : Prop := ∃ row ∈ t.rows, row.IsOf batch

/-- The step is outside of the calls on the spool. -/
def AgentEvent.outside : AgentEvent → Bool
  | .executed _ _ => false
  | _ => true

/-- The statements that a call can come to. -/
def SpoolUse.Allows (textBytes : Payload → ℕ) : SpoolUse → SpoolCall → Prop
  | .enqueue batch, .inserting row | .flush batch, .inserting row =>
    ∃ now, row = spoolRow textBytes now batch
  | .enqueue _, .evicting _ | .flush _, .evicting _ => True
  | .markSent pending, .deleting batchId => batchId = pending.batch.batchId.str
  | .markFailed _, .updating _ _ _ => True
  | _, .committing _ | _, .done _ => True
  | _, _ => False

/-- The batch that the open call has put into the table. -/
def AgentLoop.inserted (l : AgentLoop) : Option TelemetryBatch :=
  match l.control with
  | .calling (.enqueue _) (.inserting _) | .calling (.flush _) (.inserting _) => none
  | _ => l.openBatch

/-- The batch is in the table, or was evicted, or is stored. -/
def World.Kept (w : World ι) (t : SpoolTable) (evicted : List String) (batch : TelemetryBatch) :
    Prop :=
  Holds t batch ∨ batch.batchId.str ∈ evicted ∨ w.Stored batch.batchId

/-- What the agent knows where it stands. -/
def World.Fits (w : World ι) (textBytes : Payload → ℕ) : AgentControl → Prop
  | .calling use call => use.Allows textBytes call ∧
    match use with
    | .enqueue batch | .flush batch => batch ∈ w.built
    | .markSent pending => w.Stored pending.batch.batchId
    | .markFailed _ => True
  | .sending pending => w.posted.getLast? = some (postedRequest pending.batch)
  | _ => True

/-- Where the batches of the agent are. -/
structure Spools (textBytes : Payload → ℕ) (w : World ι) : Prop where
  durable : ∀ row ∈ w.spool.durable.rows, ∃ batch ∈ w.built, row.IsOf batch
  working : ∀ row ∈ w.spool.working.rows, ∃ batch ∈ w.built, row.IsOf batch
  spooled : ∀ batch ∈ w.spooled, batch ∈ w.built
  kept : ∀ batch ∈ w.spooled, w.Kept w.spool.durable w.evicted batch
  inside : ∀ batch, batch ∈ w.spooled ∨ w.agent.inserted = some batch →
    w.Kept w.spool.working (w.evicted ++ w.evicting) batch
  evicting : w.agent.openBatch = none → w.evicting = []
  control : w.Fits textBytes w.agent.control

/-- The ids of `uuid4()` are distinct. -/
structure World.DistinctIds (w : World ι) : Prop where
  built : (w.built.map TelemetryBatch.batchId).Nodup
  foreign : ∀ batch ∈ w.built, batch.batchId ∉ w.foreign

omit [DecidableEq ι] in
theorem World.DistinctIds.eq_of_batchId (h : w.DistinctIds) {batch batch' : TelemetryBatch}
    (hbatch : batch ∈ w.built) (hbatch' : batch' ∈ w.built)
    (hid : batch.batchId = batch'.batchId) : batch = batch' :=
  List.inj_on_of_nodup_map h.built hbatch hbatch' hid

theorem Holds.deleteOldest {t : SpoolTable} {batch : TelemetryBatch} (h : Holds t batch)
    (oldest : Oldest) : Holds (deleteOldest oldest t) batch ∨
      batch.batchId.str ∈ removedIds t (FleetPulse.deleteOldest oldest t) := by
  obtain ⟨row, hrow, hof⟩ := h
  by_cases hkept : row.batchId ∈ (FleetPulse.deleteOldest oldest t).keys
  · obtain ⟨row', hrow', hid⟩ := Table.mem_keys.mp hkept
    have hmem : row' ∈ t.rows := by
      unfold FleetPulse.deleteOldest at hrow'
      split at hrow'
      · exact List.mem_of_mem_filter hrow'
      · exact hrow'
    obtain rfl := t.eq_of_key_eq hmem hrow hid
    exact .inl ⟨row', hrow', hof⟩
  · refine .inr (List.mem_filter.mpr ⟨?_, ?_⟩)
    · exact hof.1 ▸ Table.key_mem_keys hrow
    · simpa [← hof.1] using hkept

theorem Holds.deleteWhere {t : SpoolTable} {batch : TelemetryBatch} (h : Holds t batch)
    (batchId : String) : Holds (t.deleteWhere (fun r => r.batchId = batchId)) batch ∨
      batch.batchId.str = batchId := by
  obtain ⟨row, hrow, hof⟩ := h
  by_cases hid : row.batchId = batchId
  · exact .inr (hof.1 ▸ hid)
  · exact .inl ⟨row, by simpa using ⟨hrow, hid⟩, hof⟩

theorem Holds.updateFailed {t : SpoolTable} {batch : TelemetryBatch} (h : Holds t batch)
    (batchId error : String) (nextAttemptAt : PyFloat) :
    Holds (updateFailed batchId error nextAttemptAt t) batch := by
  obtain ⟨row, hrow, hof⟩ := h
  refine ⟨if row.batchId = batchId then row.fail error nextAttemptAt else row, ?_, ?_⟩
  · rw [rows_updateFailed]
    exact List.mem_map_of_mem hrow
  · split
    · exact hof
    · exact hof

omit [DecidableEq ι] in
theorem World.Kept.mono {t : SpoolTable} {evicted evicted' : List String} {batch : TelemetryBatch}
    (h : w.Kept t evicted batch) (hevicted : evicted ⊆ evicted')
    (hstored : w.Stored batch.batchId → w'.Stored batch.batchId) : w'.Kept t evicted' batch :=
  h.imp (fun h => h) (Or.imp (fun h => hevicted h) hstored)

namespace Spools

omit [DecidableEq ι] in
/-- The pipeline and the network leave the agent alone. -/
theorem pipeline {config : Config ι (Shared ι) Local} {serving : ι → Option ℕ}
    {foreign : List UUID} {answers : List (ℕ × IngestionResponse)} (h : Spools textBytes w)
    (hstored : ∀ batchId, w.Stored batchId → batchId ∈ config.shared.db.telemetryBatches.keys) :
    Spools textBytes { w with config, serving, foreign, answers } where
  durable := h.durable
  working := h.working
  spooled := h.spooled
  kept batch hbatch := (h.kept batch hbatch).mono (List.Subset.refl _) (hstored _)
  inside batch hbatch := (h.inside batch hbatch).mono (List.Subset.refl _) (hstored _)
  evicting := h.evicting
  control := by
    have hcontrol := h.control
    simp only [World.Fits] at hcontrol ⊢
    split at hcontrol
    · refine ⟨hcontrol.1, ?_⟩
      have huse := hcontrol.2
      split at huse
      · exact huse
      · exact huse
      · exact hstored _ huse
      · exact huse
    · exact hcontrol
    · trivial

omit [DecidableEq ι] in
/-- A new process, or none: the table is that of the file. -/
theorem reopen {control : AgentControl} (h : Spools textBytes w)
    (hinserted : AgentLoop.inserted ⟨false, [], control⟩ = none)
    (hcontrol : (w.reopen control).Fits textBytes control) : Spools textBytes (w.reopen control) where
  durable := h.durable
  working := h.durable
  spooled := h.spooled
  kept := h.kept
  inside batch hbatch := by
    rcases hbatch with hbatch | hopen
    · exact (h.kept batch hbatch).mono (List.subset_append_left _ _) (fun h => h)
    · exact absurd (hinserted.symm.trans hopen) nofun
  evicting _ := rfl
  control := hcontrol

omit [DecidableEq ι] in
/-- A step of the agent outside of the calls on the spool. -/
theorem quiet {e : AgentEvent} {c : Connection} {l : AgentLoop} (h : Spools textBytes w)
    (houtside : e.outside = true) (hevicting : w.evicting = [])
    (hdurable : c.durable = w.spool.durable)
    (hworking : c.working = w.spool.working ∨ c.working = w.spool.durable)
    (hinserted : l.inserted = none) (hcontrol : (w.move e c l).Fits textBytes l.control) :
    Spools textBytes (w.move e c l) := by
  have hspooled : e.spooled? = none := by
    cases e with
    | executed => cases houtside
    | _ => rfl
  have hbatches : (w.move e c l).spooled = w.spooled := by simp [World.move, hspooled]
  have hevicted : (w.move e c l).evicted = w.evicted := by simp [World.move, hspooled]
  have hnone : (w.move e c l).evicting = [] := by
    cases e with
    | executed => cases houtside
    | _ => exact hevicting
  have hrows : ∀ row : SpoolRow, (∃ batch ∈ w.built, row.IsOf batch) →
      ∃ batch ∈ (w.move e c l).built, row.IsOf batch :=
    fun row ⟨batch, hbatch, hof⟩ => ⟨batch, List.mem_append_left _ hbatch, hof⟩
  refine ⟨?_, ?_, ?_, ?_, ?_, fun _ => hnone, hcontrol⟩
  · exact fun row hrow => hrows row (h.durable row (hdurable ▸ hrow))
  · intro row hrow
    have hmem : row ∈ c.working.rows := hrow
    rcases hworking with hsame | hsame
    · exact hrows row (h.working row (hsame ▸ hmem))
    · exact hrows row (h.durable row (hsame ▸ hmem))
  · rw [hbatches]
    exact fun batch hbatch => List.mem_append_left _ (h.spooled batch hbatch)
  · rw [hbatches, hevicted]
    intro batch hbatch
    have hkept := h.kept batch hbatch
    rw [← hdurable] at hkept
    exact hkept
  · rw [hbatches, hevicted, hnone, List.append_nil]
    rintro batch (hbatch | hopen)
    · have hkept := h.kept batch hbatch
      have hinside := h.inside batch (.inl hbatch)
      rw [hevicting, List.append_nil] at hinside
      rcases hworking with hsame | hsame
      · rw [← hsame] at hinside
        exact hinside
      · rw [← hsame] at hkept
        exact hkept
    · exact absurd (hinserted.symm.trans hopen) nofun

omit [DecidableEq ι] in
/-- A statement that is no commit and leaves the file alone: what matters is the table. -/
theorem execute {use : SpoolUse} {call : SpoolCall} {c : Connection} {l : AgentLoop}
    (h : Spools textBytes w) (hcommit : ∀ dropped, call ≠ .committing dropped)
    (hdurable : c.durable = w.spool.durable)
    (hrows : ∀ row ∈ c.working.rows, ∃ batch ∈ w.built, row.IsOf batch)
    (hinside : ∀ batch, batch ∈ w.spooled ∨ l.inserted = some batch →
      w.Kept c.working (w.evicted ++ (w.move (.executed use call) c l).evicting) batch)
    (hevicting : l.openBatch = none → (w.move (.executed use call) c l).evicting = [])
    (hcontrol : (w.move (.executed use call) c l).Fits textBytes l.control) :
    Spools textBytes (w.move (.executed use call) c l) := by
  have hspooled : (AgentEvent.executed use call).spooled? = none := by
    unfold AgentEvent.spooled?
    split
    · next heq => exact absurd (AgentEvent.executed.inj heq).2 (hcommit _)
    · next heq => exact absurd (AgentEvent.executed.inj heq).2 (hcommit _)
    · rfl
  have hbatches : (w.move (.executed use call) c l).spooled = w.spooled := by
    simp [World.move, hspooled]
  have hevicted : (w.move (.executed use call) c l).evicted = w.evicted := by
    simp [World.move, hspooled]
  have hbuilt : (w.move (.executed use call) c l).built = w.built := by
    simp [World.move, AgentEvent.built?]
  refine ⟨?_, ?_, ?_, ?_, ?_, hevicting, hcontrol⟩
  · rw [hbuilt]
    exact fun row hrow => h.durable row (hdurable ▸ hrow)
  · rw [hbuilt]
    exact hrows
  · rw [hbatches, hbuilt]
    exact h.spooled
  · rw [hbatches, hevicted]
    intro batch hbatch
    have hkept := h.kept batch hbatch
    rw [← hdurable] at hkept
    exact hkept
  · rw [hbatches, hevicted]
    exact hinside

omit [DecidableEq ι] in
/-- The commit: the file becomes the table. -/
theorem commit {use : SpoolUse} {dropped : ℕ} {l : AgentLoop} (h : Spools textBytes w)
    (hspooled : ∀ batch, (AgentEvent.executed use (.committing dropped)).spooled? = some batch →
      w.agent.inserted = some batch ∧ batch ∈ w.built)
    (hother : (AgentEvent.executed use (.committing dropped)).spooled? = none → w.evicting = [])
    (hinserted : l.inserted = none)
    (hcontrol : (w.move (.executed use (.committing dropped))
      { w.spool with durable := w.spool.working } l).Fits textBytes l.control) :
    Spools textBytes (w.move (.executed use (.committing dropped))
      { w.spool with durable := w.spool.working } l) := by
  have hbuilt : (w.move (.executed use (.committing dropped))
      { w.spool with durable := w.spool.working } l).built = w.built := by
    simp [World.move, AgentEvent.built?]
  have hbatches : ∀ batch ∈ (w.move (.executed use (.committing dropped))
      { w.spool with durable := w.spool.working } l).spooled,
      batch ∈ w.spooled ∨ w.agent.inserted = some batch ∧ batch ∈ w.built := by
    intro batch hbatch
    rcases List.mem_append.mp hbatch with hold | hnew
    · exact .inl hold
    · exact .inr (hspooled batch (by simpa using hnew))
  have hkept : ∀ batch ∈ (w.move (.executed use (.committing dropped))
      { w.spool with durable := w.spool.working } l).spooled,
      w.Kept w.spool.working (w.move (.executed use (.committing dropped))
        { w.spool with durable := w.spool.working } l).evicted batch := by
    intro batch hbatch
    have hinside := h.inside batch ((hbatches batch hbatch).imp_right And.left)
    cases hnone : (AgentEvent.executed use (.committing dropped)).spooled? with
    | none => simpa [World.move, hnone, hother hnone] using hinside
    | some b => simpa [World.move, hnone] using hinside
  refine ⟨?_, ?_, ?_, hkept, ?_, fun _ => rfl, hcontrol⟩
  · rw [hbuilt]
    exact h.working
  · rw [hbuilt]
    exact h.working
  · rw [hbuilt]
    intro batch hbatch
    exact (hbatches batch hbatch).elim (h.spooled batch) And.right
  · rintro batch (hbatch | hopen)
    · exact (hkept batch hbatch).mono (List.subset_append_left _ _) (fun h => h)
    · exact absurd (hinserted.symm.trans hopen) nofun

omit [DecidableEq ι] in
/-- The INSERT of an enqueue. -/
theorem insert {use : SpoolUse} {row : SpoolRow} {batch : TelemetryBatch} {stop : Bool}
    {samples : List TelemetrySample} (h : Spools textBytes w) (hids : w.DistinctIds)
    (huse : use = .enqueue batch ∨ use = .flush batch)
    (hagent : w.agent = ⟨stop, samples, .calling use (.inserting row)⟩) :
    Spools textBytes (w.move (.executed use (.inserting row))
      { w.spool with working := (w.spool.working.insertOrIgnore row).1 }
      ⟨stop, samples, .calling use (.evicting 0)⟩) := by
  have hcontrol := h.control
  rw [hagent] at hcontrol
  obtain ⟨now, hbuilt, rfl⟩ : ∃ now, batch ∈ w.built ∧ row = spoolRow textBytes now batch := by
    rcases huse with rfl | rfl
    · obtain ⟨⟨now, hrow⟩, hbuilt⟩ := hcontrol
      exact ⟨now, hbuilt, hrow⟩
    · obtain ⟨⟨now, hrow⟩, hbuilt⟩ := hcontrol
      exact ⟨now, hbuilt, hrow⟩
  have hof : (spoolRow textBytes now batch).IsOf batch := ⟨rfl, rfl⟩
  have hprefix := Table.prefix_insertOrIgnore w.spool.working (spoolRow textBytes now batch)
  -- A row that is there under the id of the batch is its own.
  have hnew : Holds (w.spool.working.insertOrIgnore (spoolRow textBytes now batch)).1 batch := by
    rcases w.spool.working.insertOrIgnore_cases (spoolRow textBytes now batch) with
      ⟨hmem, hrows, -⟩ | ⟨-, hrows, -⟩
    · obtain ⟨row, hrow, hid⟩ := Table.mem_keys.mp hmem
      obtain ⟨batch', hbatch', hof'⟩ := h.working row hrow
      have hsame : batch' = batch :=
        hids.eq_of_batchId hbatch' hbuilt (UUID.str_injective (hof'.1.symm.trans hid))
      exact ⟨row, hrows ▸ hrow, hsame ▸ hof'⟩
    · exact ⟨_, hrows ▸ List.mem_append_right _ (List.mem_singleton_self _), hof⟩
  refine h.execute (by simp) rfl ?_ ?_ ?_ ?_
  · intro row hrow
    rcases w.spool.working.insertOrIgnore_cases (spoolRow textBytes now batch) with
      ⟨-, hrows, -⟩ | ⟨-, hrows, -⟩
    · exact h.working row (hrows ▸ hrow)
    · rcases List.mem_append.mp (hrows ▸ hrow) with hold | hadded
      · exact h.working row hold
      · exact ⟨batch, hbuilt, List.mem_singleton.mp hadded ▸ hof⟩
  · rintro b (hb | hopen)
    · refine (h.inside b (.inl hb)).imp ?_ (fun h => h)
      rintro ⟨row, hrow, hrowOf⟩
      exact ⟨row, hprefix.subset hrow, hrowOf⟩
    · have hsame : b = batch := by
        rcases huse with rfl | rfl <;> exact (Option.some.inj hopen).symm
      exact .inl (hsame ▸ hnew)
  · intro hnone
    rcases huse with rfl | rfl <;> cases hnone
  · rcases huse with rfl | rfl
    · exact ⟨trivial, List.mem_append_left _ hbuilt⟩
    · exact ⟨trivial, List.mem_append_left _ hbuilt⟩

omit [DecidableEq ι] in
/-- A round of the eviction loop. -/
theorem evict {use : SpoolUse} {call' : SpoolCall} {batch : TelemetryBatch} {stop : Bool}
    {samples : List TelemetrySample} {dropped : ℕ} {oldest : Oldest} {c : Connection}
    (h : Spools textBytes w) (huse : use = .enqueue batch ∨ use = .flush batch)
    (hagent : w.agent = ⟨stop, samples, .calling use (.evicting dropped)⟩)
    (hstep : (SpoolCall.evicting dropped).step settings.limits oldest w.spool = .ok (call', c)) :
    Spools textBytes (w.move (.executed use (.evicting dropped)) c
      ⟨stop, samples, .calling use call'⟩) := by
  have hcontrol := h.control
  have hinserted : w.agent.inserted = some batch := by
    rw [hagent]
    rcases huse with rfl | rfl <;> rfl
  have hbuilt : batch ∈ w.built := by
    rw [hagent] at hcontrol
    rcases huse with rfl | rfl <;> exact hcontrol.2
  have hcase : (∃ dropped', call' = .evicting dropped' ∧ c.durable = w.spool.durable ∧
      c.working = deleteOldest oldest w.spool.working) ∨
      (call' = .committing dropped ∧ c = w.spool) := by
    rw [SpoolCall.step] at hstep
    split at hstep
    · cases hstep
      exact .inl ⟨_, rfl, rfl, rfl⟩
    · cases hstep
      exact .inr ⟨rfl, rfl⟩
  have hinserted' : ∀ b, AgentLoop.inserted ⟨stop, samples, .calling use call'⟩ = some b →
      b = batch := by
    intro b hb
    rcases hcase with ⟨dropped', rfl, -⟩ | ⟨rfl, -⟩ <;> rcases huse with rfl | rfl <;>
      exact (Option.some.inj hb).symm
  have hkept : ∀ b, b ∈ w.spooled ∨ AgentLoop.inserted ⟨stop, samples, .calling use call'⟩ = some b →
      w.Kept w.spool.working (w.evicted ++ w.evicting) b := by
    rintro b (hb | hb)
    · exact h.inside b (.inl hb)
    · exact h.inside b (.inr (hinserted' b hb ▸ hinserted))
  refine h.execute (by simp) ?_ ?_ ?_ ?_ ?_
  · rcases hcase with ⟨-, -, hdurable, -⟩ | ⟨-, rfl⟩
    · exact hdurable
    · rfl
  · rcases hcase with ⟨-, -, -, hworking⟩ | ⟨-, rfl⟩
    · intro row hrow
      rw [hworking] at hrow
      unfold deleteOldest at hrow
      split at hrow
      · exact h.working row (List.mem_of_mem_filter hrow)
      · exact h.working row hrow
    · exact h.working
  · intro b hb
    rcases hcase with ⟨dropped', hcall, -, hworking⟩ | ⟨hcall, rfl⟩
    · have hmoved : (w.move (.executed use (.evicting dropped)) c
          ⟨stop, samples, .calling use call'⟩).evicting =
          w.evicting ++ removedIds w.spool.working (deleteOldest oldest w.spool.working) := by
        rw [← hworking]
        rfl
      rw [hmoved, hworking, ← List.append_assoc]
      rcases hkept b hb with hholds | hevicted | hstored
      · rcases hholds.deleteOldest oldest with hstill | hremoved
        · exact .inl hstill
        · exact .inr (.inl (List.mem_append_right _ hremoved))
      · exact .inr (.inl (List.mem_append_left _ hevicted))
      · exact .inr (.inr hstored)
    · refine (hkept b hb).mono ?_ (fun h => h)
      intro id hid
      rcases List.mem_append.mp hid with hid | hid
      · exact List.mem_append_left _ hid
      · exact List.mem_append_right _ (List.mem_append_left _ hid)
  · intro hnone
    rcases hcase with ⟨dropped', rfl, -⟩ | ⟨rfl, -⟩ <;> rcases huse with rfl | rfl <;> cases hnone
  · have hbuilt' : batch ∈ (w.move (.executed use (.evicting dropped)) c
        ⟨stop, samples, .calling use call'⟩).built := List.mem_append_left _ hbuilt
    rcases hcase with ⟨dropped', rfl, -⟩ | ⟨rfl, -⟩ <;> rcases huse with rfl | rfl <;>
      exact ⟨trivial, hbuilt'⟩

omit [DecidableEq ι] in
/-- The statement of `mark_sent` removes a batch that is stored. -/
theorem delete {pending : PendingBatch} {batchId : String} {stop : Bool}
    {samples : List TelemetrySample} (h : Spools textBytes w)
    (hagent : w.agent = ⟨stop, samples, .calling (.markSent pending) (.deleting batchId)⟩)
    (hids : ∀ batch ∈ w.spooled, batch.batchId.str = batchId → w.Stored batch.batchId) :
    Spools textBytes (w.move (.executed (.markSent pending) (.deleting batchId))
      { w.spool with working := w.spool.working.deleteWhere (fun r => r.batchId = batchId) }
      ⟨stop, samples, .calling (.markSent pending) (.committing 0)⟩) := by
  have hcontrol := h.control
  rw [hagent] at hcontrol
  have hevicting : w.evicting = [] := h.evicting (by rw [hagent]; rfl)
  refine h.execute (by simp) rfl ?_ ?_ (fun _ => hevicting) ⟨trivial, hcontrol.2⟩
  · intro row hrow
    exact h.working row (List.mem_of_mem_filter hrow)
  · rintro b (hb | hopen)
    · rcases h.inside b (.inl hb) with hholds | hkept
      · rcases hholds.deleteWhere batchId with hstill | hid
        · exact .inl hstill
        · exact .inr (.inr (hids b hb hid))
      · exact .inr hkept
    · cases hopen

omit [DecidableEq ι] in
/-- The statement of `mark_failed` changes neither ids nor payloads. -/
theorem update {pending : PendingBatch} {batchId error : String} {nextAttemptAt : PyFloat}
    {stop : Bool} {samples : List TelemetrySample} (h : Spools textBytes w)
    (hagent : w.agent =
      ⟨stop, samples, .calling (.markFailed pending) (.updating batchId error nextAttemptAt)⟩) :
    Spools textBytes (w.move (.executed (.markFailed pending) (.updating batchId error nextAttemptAt))
      { w.spool with working := updateFailed batchId error nextAttemptAt w.spool.working }
      ⟨stop, samples, .calling (.markFailed pending) (.committing 0)⟩) := by
  have hevicting : w.evicting = [] := h.evicting (by rw [hagent]; rfl)
  refine h.execute (by simp) rfl ?_ ?_ (fun _ => hevicting) ⟨trivial, trivial⟩
  · intro row hrow
    have hrow' : row ∈ (updateFailed batchId error nextAttemptAt w.spool.working).rows := hrow
    rw [rows_updateFailed] at hrow'
    obtain ⟨r, hr, rfl⟩ := List.mem_map.mp hrow'
    obtain ⟨batch, hbatch, hof⟩ := h.working r hr
    refine ⟨batch, hbatch, ?_⟩
    split
    · exact hof
    · exact hof
  · rintro b (hb | hopen)
    · exact (h.inside b (.inl hb)).imp (fun h => h.updateFailed batchId error nextAttemptAt)
        (fun h => h)
    · cases hopen

omit [DecidableEq ι] in
/-- Any statement. -/
theorem statement {use : SpoolUse} {call call' : SpoolCall} {oldest : Oldest} {stop : Bool}
    {samples : List TelemetrySample} {c : Connection} (h : Spools textBytes w)
    (hids : w.DistinctIds) (hagent : w.agent = ⟨stop, samples, .calling use call⟩)
    (hopen : call.isOpen = true)
    (hstep : call.step settings.limits oldest w.spool = .ok (call', c)) :
    Spools textBytes (w.move (.executed use call) c ⟨stop, samples, .calling use call'⟩) := by
  have hcontrol := h.control
  rw [hagent] at hcontrol
  cases call with
  | inserting row =>
    cases hstep
    cases use with
    | enqueue batch => exact h.insert hids (.inl rfl) hagent
    | flush batch => exact h.insert hids (.inr rfl) hagent
    | markSent | markFailed => exact absurd hcontrol.1 id
  | evicting dropped =>
    cases use with
    | enqueue batch => exact h.evict (.inl rfl) hagent hstep
    | flush batch => exact h.evict (.inr rfl) hagent hstep
    | markSent | markFailed => exact absurd hcontrol.1 id
  | deleting batchId =>
    cases hstep
    cases use with
    | markSent pending =>
      refine h.delete hagent (fun batch _ hid => ?_)
      have hsame : batch.batchId = pending.batch.batchId :=
        UUID.str_injective (hid.trans hcontrol.1)
      exact hsame ▸ hcontrol.2
    | enqueue | flush | markFailed => exact absurd hcontrol.1 id
  | updating batchId error nextAttemptAt =>
    rw [SpoolCall.step] at hstep
    split at hstep <;> cases hstep
    cases use with
    | markFailed pending => exact h.update hagent
    | enqueue | flush | markSent => exact absurd hcontrol.1 id
  | committing dropped =>
    cases hstep
    cases use with
    | enqueue batch | flush batch =>
      refine h.commit ?_ (by simp [AgentEvent.spooled?]) rfl ⟨trivial, List.mem_append_left _ hcontrol.2⟩
      rintro b ⟨⟩
      exact ⟨by rw [hagent]; rfl, hcontrol.2⟩
    | markSent pending | markFailed pending =>
      exact h.commit (by simp [AgentEvent.spooled?])
        (fun _ => h.evicting (by rw [hagent]; rfl)) rfl ⟨trivial, hcontrol.2⟩
  | done dropped => cases hopen

omit [DecidableEq ι] in
/-- What `next_ready` returns was built by the agent, and its numbers are finite. -/
theorem nextReady_built {oldest : Oldest} {now : PyFloat} {pending : PendingBatch}
    (h : Spools textBytes w)
    (hread : nextReady libs oldest now w.spool.working = .ok (some pending)) :
    pending.batch ∈ w.built ∧ pending.batch.finite = true := by
  unfold nextReady at hread
  split at hread
  · cases hread
  · next row hpick =>
    obtain ⟨batch, hbatch, -, hpayload⟩ :=
      h.working row (List.mem_of_mem_filter (oldest.pick_mem _ _ hpick))
    rw [hpayload, TelemetryBatch.validate_modelDumpJson] at hread
    cases hfinite : batch.finite with
    | true =>
      simp only [hfinite, if_true] at hread
      cases hread
      exact ⟨hbatch, hfinite⟩
    | false =>
      simp only [hfinite] at hread
      cases hread

omit [DecidableEq ι] in
theorem posted_built {e : AgentEvent} {c : Connection} {l : AgentLoop} (h : Spools textBytes w)
    (hstep : AgentStep libs settings textBytes w.spool w.agent e c l) :
    ∀ batch, e.posted? = some batch → batch ∈ w.built ∧ batch.finite = true := by
  intro batch hposted
  generalize hspool : w.spool = spool at hstep
  generalize w.agent = loop at hstep
  cases hstep with
  | read hread =>
    cases hposted
    exact h.nextReady_built (hspool ▸ hread)
  | _ => cases hposted

omit [DecidableEq ι] in
/-- Every step of the agent. -/
theorem agent {e : AgentEvent} {c : Connection} {l : AgentLoop} (h : Spools textBytes w)
    (htransports : Transports w) (hids : w.DistinctIds)
    (hstep : AgentStep libs settings textBytes w.spool w.agent e c l) (hspool : e ≠ .spoolRaised)
    (hresponse : ∀ response, e = .responded response →
      (w.posted.length - 1, response) ∈ w.answers) : Spools textBytes (w.move e c l) := by
  rcases w with ⟨spool, loop, config, posted, serving, answers, built, foreign, spooled, evicting,
    evicted⟩
  change AgentStep libs settings textBytes spool loop e c l at hstep
  have hcontrol := h.control
  have hevicting := h.evicting
  cases hstep with
  | statement hopen hcall => exact h.statement hids rfl hopen hcall
  | statementRaises | queryRaises => exact absurd rfl hspool
  | @signal _ _ control hawaits =>
    cases control with
    | sending pending =>
      refine h.quiet rfl (hevicting rfl) rfl (.inl rfl) rfl ?_
      simpa [World.Fits, World.move, AgentEvent.posted?] using hcontrol
    | waiting | closing => exact h.quiet rfl (hevicting rfl) rfl (.inl rfl) rfl trivial
    | _ => cases hawaits
  | build hbatch | flush hne hbatch =>
    exact h.quiet rfl (hevicting rfl) rfl (.inl rfl) rfl
      ⟨⟨_, rfl⟩, List.mem_append_right _ (List.mem_singleton_self _)⟩
  | @callReturns _ _ use =>
    cases use with
    | enqueue | flush | markSent | markFailed =>
      exact h.quiet rfl (hevicting rfl) rfl (.inl rfl) rfl trivial
  | read hread =>
    refine h.quiet rfl (hevicting rfl) rfl (.inl rfl) rfl ?_
    simp [World.Fits, World.move, AgentEvent.posted?]
  | @respond _ _ pending response =>
    obtain ⟨batch, hposted, hstored⟩ := htransports.answers _ response (hresponse response rfl)
    have hlast : posted.getLast? = some (postedRequest pending.batch) := hcontrol
    rw [List.getLast?_eq_getElem?, hposted] at hlast
    have hid : batch.batchId = pending.batch.batchId :=
      UUID.str_injective (congrArg PostedRequest.requestId (Option.some.inj hlast))
    rw [hid] at hstored
    exact h.quiet rfl (hevicting rfl) rfl (.inl rfl) rfl ⟨rfl, hstored⟩
  | reschedule hdelay =>
    exact h.quiet rfl (hevicting rfl) rfl (.inl rfl) rfl ⟨trivial, trivial⟩
  | close => exact h.quiet rfl (hevicting rfl) rfl (.inr rfl) rfl trivial
  | enter | leave | collect | collectRaises | full | notFull | buildRaises | reset | readNone
  | readRaises | sendRaises | sendCancelled | delayRaises | wait | waitCancelled | nothingToFlush
  | flushRaises => exact h.quiet rfl (hevicting rfl) rfl (.inl rfl) rfl trivial

end Spools

/-! ### Every run -/

omit [DecidableEq ι] in
theorem World.DistinctIds.of_move {e : AgentEvent} {c : Connection} {l : AgentLoop}
    (h : (w.move e c l).DistinctIds) : w.DistinctIds :=
  ⟨h.built.sublist ((List.sublist_append_left _ _).map _),
    fun batch hbatch => h.foreign batch (List.mem_append_left _ hbatch)⟩

theorem DeliveryStep.distinctIds (h : DeliveryStep libs settings textBytes workers w w')
    (hids : w'.DistinctIds) : w.DistinctIds := by
  cases h with
  | agent => exact hids.of_move
  | receiveForeign =>
    exact ⟨hids.built, fun batch hbatch hmem => hids.foreign batch hbatch (List.mem_cons_of_mem _ hmem)⟩
  | crash | restart | receive | answer | pipeline => exact ⟨hids.built, hids.foreign⟩

theorem Step.received {i : ι} {s s' : Shared ι} {l l' : Local} {now : Instant}
    {batch : TelemetryBatch} {correlationId : String}
    (h : Step libs workers i s l (.received now batch correlationId) s' l') :
    l' = .ingesting now batch correlationId ∧ s' = s := by
  cases h with
  | api h => cases h; exact ⟨rfl, rfl⟩
  | relay h | worker h | reader h => cases h

omit [DecidableEq ι] in
/-- A crash or a restart is nothing to the network. -/
theorem Transports.reopen (h : Transports w) (control : AgentControl) : Transports (w.reopen control) :=
  ⟨h.posted, h.answers, fun i => (h.requests i).mono ⟨List.Subset.refl _, List.Subset.refl _,
    List.prefix_rfl, fun _ h => h⟩ rfl, h.records, h.outbox⟩

/-- One step of the system keeps both invariants. -/
theorem DeliveryStep.keeps (h : DeliveryStep libs settings textBytes workers w w')
    (hids : w.DistinctIds) (htransports : Transports w) (hspools : Spools textBytes w) :
    Transports w' ∧ Spools textBytes w' := by
  have hstored : ∀ {i s l e}, Step libs workers i w.config.shared (w.config.loc i) e s l →
      ∀ batchId, w.Stored batchId → batchId ∈ s.db.telemetryBatches.keys :=
    fun hstep _ hmem => Table.keys_subset_of_prefix (Step.grows hstep).telemetryBatches hmem
  cases h with
  | agent hstep hspool hresponse =>
    exact ⟨htransports.move (hspools.posted_built hstep),
      hspools.agent htransports hids hstep hspool hresponse⟩
  | crash | restart => exact ⟨htransports.reopen _, hspools.reopen rfl trivial⟩
  | receive hk hvalidate hstep =>
    obtain ⟨rfl, rfl⟩ := Step.received hstep
    exact ⟨htransports.receive hk hvalidate, hspools.pipeline (hstored hstep)⟩
  | receiveForeign hstep =>
    obtain ⟨rfl, rfl⟩ := Step.received hstep
    exact ⟨htransports.receiveForeign, hspools.pipeline (hstored hstep)⟩
  | answer hstep => exact ⟨htransports.answer hstep, hspools.pipeline (hstored hstep)⟩
  | pipeline hreceived _ hstep =>
    exact ⟨htransports.pipeline hstep hreceived, hspools.pipeline (hstored hstep)⟩

theorem DeliveryRun.keeps (h : DeliveryRun libs settings textBytes workers w)
    (hids : w.DistinctIds) : Transports w ∧ Spools textBytes w := by
  induction h with
  | @start config hinitial =>
    obtain ⟨hshared, hstart⟩ := hinitial
    have hempty : config.shared.db = .empty := by rw [hshared]; rfl
    refine ⟨⟨nofun, nofun, fun i => ?_, ?_, ?_⟩, ⟨nofun, nofun, nofun, nofun, ?_, fun _ => rfl, trivial⟩⟩
    · have hidle : config.loc i = .idle := hstart i
      simp only [hidle]
      trivial
    · simp only [hempty]
      exact nofun
    · simp only [hempty]
      exact nofun
    · rintro batch (hmem | hopen)
      · cases hmem
      · cases hopen
  | step _ hstep ih =>
    have hbefore := hstep.distinctIds hids
    obtain ⟨htransports, hspools⟩ := ih hbefore
    exact hstep.keeps hbefore htransports hspools

omit [DecidableEq ι] in
/-- What is stored under the id of a batch that the agent built is that batch. -/
theorem Transports.record {batch : TelemetryBatch} (h : Transports w) (hids : w.DistinctIds)
    (hbuilt : batch ∈ w.built) {record : TelemetryBatchRecord}
    (hrecord : record ∈ w.config.shared.db.telemetryBatches.rows)
    (hid : record.batchId = batch.batchId) :
    record.payload = batch.dump ∧ batch.finite = true := by
  rcases h.records record hrecord with hforeign | ⟨batch', hbuilt', hfinite, hid', hpayload⟩
  · exact absurd (hid ▸ hforeign) (hids.foreign batch hbuilt)
  · obtain rfl := hids.eq_of_batchId hbuilt' hbuilt (hid'.symm.trans hid)
    exact ⟨hpayload, hfinite⟩

theorem filter_eq_singleton {α : Type} {l : List α} {p : α → Bool} {a : α} (hnodup : l.Nodup)
    (ha : a ∈ l) (hp : p a = true) (h : ∀ b ∈ l, p b = true → b = a) : l.filter p = [a] := by
  refine List.perm_singleton.mp
    ((List.perm_ext_iff_of_nodup (hnodup.filter p) (List.nodup_singleton a)).mpr (fun b => ?_))
  rw [List.mem_filter, List.mem_singleton]
  exact ⟨fun ⟨hb, hpb⟩ => h b hb hpb, by rintro rfl; exact ⟨ha, hp⟩⟩

/-- A stored batch has one row and one outbox event. -/
theorem DeliveryRun.stored (h : DeliveryRun libs settings textBytes workers w)
    (hids : w.DistinctIds) {batch : TelemetryBatch} (hbuilt : batch ∈ w.built)
    (hstored : w.Stored batch.batchId) :
    ∃ record event, w.config.shared.db.telemetryBatches.rows.filter
        (fun r => r.batchId = batch.batchId) = [record] ∧
      record.payload = batch.modelDumpJson ∧
      w.config.shared.db.outboxEvents.rows.filter
        (fun e => e.aggregateId = batch.batchId.str) = [event] := by
  obtain ⟨htransports, -⟩ := h.keeps hids
  obtain ⟨t, hrun⟩ := h.run_pipeline
  obtain ⟨hdurable, -⟩ := durable_run hrun
  obtain ⟨record, hrecord, hid⟩ := Table.mem_keys.mp hstored
  obtain ⟨hpayload, hfinite⟩ := htransports.record hids hbuilt hrecord hid
  obtain ⟨event, hevent, haggregate, hunique⟩ := hdurable.outbox_unique hrecord
  rw [hid] at haggregate hunique
  refine ⟨record, event, ?_, ?_, ?_⟩
  · refine filter_eq_singleton (List.Nodup.of_map _ (Table.nodup _)) hrecord (by simpa using hid) ?_
    exact fun r hr hrid => Table.eq_of_key_eq _ hr hrecord ((of_decide_eq_true hrid).trans hid.symm)
  · rw [hpayload, TelemetryBatch.modelDumpJson_of_finite hfinite]
  · refine filter_eq_singleton (List.Nodup.of_map _ (Table.nodup _)) hevent
      (by simpa using haggregate) ?_
    exact fun e he hid => hunique e he (of_decide_eq_true hid)

/-- AT LEAST ONCE, AND ONE COPY: in every state of every run, a batch whose enqueue has committed is
    in the file with its payload, or was removed by the eviction loop of a committed enqueue, or has
    its one row in `telemetry_batches`, with the payload that was spooled, and its one outbox event;
    and `mark_sent` runs only for a batch that has its row. -/
theorem spooled_batch_delivered (h : DeliveryRun libs settings textBytes workers w)
    (hids : w.DistinctIds) :
    (∀ batch ∈ w.spooled,
      (∃ row ∈ w.spool.durable.rows, row.batchId = batch.batchId.str ∧
        row.payload = batch.modelDumpJson) ∨
      batch.batchId.str ∈ w.evicted ∨
      ∃ record event, w.config.shared.db.telemetryBatches.rows.filter
          (fun r => r.batchId = batch.batchId) = [record] ∧
        record.payload = batch.modelDumpJson ∧
        w.config.shared.db.outboxEvents.rows.filter
          (fun e => e.aggregateId = batch.batchId.str) = [event]) ∧
    ∀ pending call, w.agent.control = .calling (.markSent pending) call →
      ∃ record ∈ w.config.shared.db.telemetryBatches.rows,
        record.batchId = pending.batch.batchId := by
  obtain ⟨-, hspools⟩ := h.keeps hids
  refine ⟨fun batch hbatch => ?_, fun pending call hcalling => ?_⟩
  · rcases hspools.kept batch hbatch with ⟨row, hrow, hof⟩ | hevicted | hstored
    · exact .inl ⟨row, hrow, hof.1, hof.2⟩
    · exact .inr (.inl hevicted)
    · exact .inr (.inr (h.stored hids (hspools.spooled batch hbatch) hstored))
  · have hcontrol := hspools.control
    rw [hcalling] at hcontrol
    exact Table.mem_keys.mp hcontrol.2

theorem length_filter_le_one {α : Type} {l : List α} {p : α → Bool} (hnodup : l.Nodup)
    (h : ∀ a ∈ l, ∀ b ∈ l, p a = true → p b = true → a = b) : (l.filter p).length ≤ 1 := by
  cases hfilter : l.filter p with
  | nil => exact Nat.zero_le _
  | cons a rest =>
    obtain ⟨ha, hp⟩ := List.mem_filter.mp (hfilter ▸ List.mem_cons_self : a ∈ l.filter p)
    rw [← hfilter, filter_eq_singleton hnodup ha hp (fun b hb hpb => h b hb a ha hpb hp)]
    exact le_rfl

/-- A batch id has one outbox event at most. -/
theorem Durable.outbox_le_one {s : Stores} (hd : Durable libs s) (batchId : UUID) :
    (s.db.outboxEvents.rows.filter (fun e => e.aggregateId = batchId.str)).length ≤ 1 := by
  refine length_filter_le_one (List.Nodup.of_map _ (Table.nodup _)) ?_
  intro event hevent event' hevent' hid hid'
  obtain ⟨batch, haccepted⟩ := hd.accepted (List.mem_map_of_mem hevent)
  obtain ⟨lo, hi, hrecord⟩ := haccepted.record
  obtain ⟨only, -, -, hunique⟩ := hd.outbox_unique hrecord
  have hbatch : batchId.str = batch.batchId.str :=
    (of_decide_eq_true hid).symm.trans haccepted.aggregateId
  rw [hunique event hevent haccepted.aggregateId,
    hunique event' hevent' ((of_decide_eq_true hid').trans hbatch)]

/-- NO BATCH LOST, NONE TWICE: in every state of every run, a batch whose enqueue has committed is in
    the file, or was removed by the eviction loop of a committed enqueue, or is stored, with its
    payload in either place; `mark_sent` runs only when the row is there; and whatever was sent again,
    a batch id has one row and one outbox event at most. -/
theorem telemetry_delivered (h : DeliveryRun libs settings textBytes workers w)
    (hids : w.DistinctIds) :
    (∀ batch ∈ w.spooled,
      (∃ row ∈ w.spool.durable.rows, row.batchId = batch.batchId.str ∧
        row.payload = batch.modelDumpJson) ∨
      batch.batchId.str ∈ w.evicted ∨
      ∃ record ∈ w.config.shared.db.telemetryBatches.rows, record.batchId = batch.batchId ∧
        record.payload = batch.modelDumpJson) ∧
    (∀ pending call, w.agent.control = .calling (.markSent pending) call →
      ∃ record ∈ w.config.shared.db.telemetryBatches.rows,
        record.batchId = pending.batch.batchId) ∧
    ∀ batchId : UUID,
      (w.config.shared.db.telemetryBatches.rows.filter
        (fun r => r.batchId = batchId)).length ≤ 1 ∧
      (w.config.shared.db.outboxEvents.rows.filter
        (fun e => e.aggregateId = batchId.str)).length ≤ 1 := by
  obtain ⟨htransports, hspools⟩ := h.keeps hids
  obtain ⟨t, hrun⟩ := h.run_pipeline
  refine ⟨fun batch hbatch => ?_, fun pending call hcalling => ?_, fun batchId => ⟨?_, ?_⟩⟩
  · rcases hspools.kept batch hbatch with ⟨row, hrow, hof⟩ | hevicted | hstored
    · exact .inl ⟨row, hrow, hof.1, hof.2⟩
    · exact .inr (.inl hevicted)
    · obtain ⟨record, hrecord, hid⟩ := Table.mem_keys.mp hstored
      obtain ⟨hpayload, hfinite⟩ :=
        htransports.record hids (hspools.spooled batch hbatch) hrecord hid
      exact .inr (.inr ⟨record, hrecord, hid,
        hpayload.trans (TelemetryBatch.modelDumpJson_of_finite hfinite).symm⟩)
  · have hcontrol := hspools.control
    rw [hcalling] at hcontrol
    exact Table.mem_keys.mp hcontrol.2
  · refine length_filter_le_one (List.Nodup.of_map _ (Table.nodup _)) ?_
    exact fun r hr r' hr' hid hid' => Table.eq_of_key_eq _ hr hr'
      ((of_decide_eq_true hid).trans (of_decide_eq_true hid').symm)
  · exact (durable_run hrun).1.outbox_le_one batchId

end

/-! ### A batch on its way -/

/-- The file with the row of `calmBatch`. -/
def calmSpool : Connection := .connect ⟨[spoolRow plainBytes 100 calmBatch], List.nodup_singleton _⟩

/-- The system with `calmBatch` as the only batch, which is spooled. -/
def calmWorld (spool : Connection) (agent : AgentLoop) (config : Config Bool (Shared Bool) Local)
    (posted : List PostedRequest) (serving : Bool → Option ℕ)
    (answers : List (ℕ × IngestionResponse)) : World Bool :=
  ⟨spool, agent, config, posted, serving, answers, [calmBatch], [], [calmBatch], [], []⟩

/-- The final flush of a process spools the batch. -/
theorem deliveryRun_spooled :
    DeliveryRun .canonical plainSettings plainBytes (fun _ : Bool => smallSettings)
      (calmWorld calmSpool ⟨true, calmBatch.samples, .ended⟩ (initial Bool) [] (fun _ => none) []) := by
  have hconstruct : TelemetryBatch.construct calmBatch.batchId plainSettings.agentId
      plainSettings.hostname calmBatch.samples = some calmBatch := dif_pos calmBatch.valid
  have hsample := calmBatch.sample_valid (spooledSample (.finite 1)) List.mem_cons_self
  have hstart : DeliveryRun .canonical plainSettings plainBytes (fun _ : Bool => smallSettings) _ :=
    @DeliveryRun.start _ _ _ _ _ _ (initial Bool) ⟨rfl, fun _ => rfl⟩
  have hwaiting := ((((hstart.agent .enter).agent (.collect hsample)).agent
    (.notFull (by decide))).agent (@AgentStep.readNone _ _ _ _ _ _ .first (.finite 99) rfl)).agent
    (.signal rfl)
  have hflushing := ((hwaiting.agent .wait).agent .leave).agent
    (@AgentStep.flush _ _ _ _ _ _ _ _ 100 calmBatch.samples_ne_nil hconstruct)
  exact ((((hflushing.agent
    (@AgentStep.statement _ _ _ _ _ _ _ _ _ _ .first rfl rfl)).agent
    (@AgentStep.statement _ _ _ _ _ _ _ _ _ _ .first rfl rfl)).agent
    (@AgentStep.statement _ _ _ _ _ _ _ _ _ _ .first rfl rfl)).agent .callReturns).agent .close

/-- The next process reads and posts it. -/
theorem deliveryRun_posted :
    DeliveryRun .canonical plainSettings plainBytes (fun _ : Bool => smallSettings)
      (calmWorld calmSpool ⟨false, calmBatch.samples, .sending ⟨calmBatch, 0⟩⟩ (initial Bool)
        [postedRequest calmBatch] (fun _ => none) []) := by
  have hsample := calmBatch.sample_valid (spooledSample (.finite 1)) List.mem_cons_self
  have hread : nextReady .canonical .first (.finite 101) calmSpool.working =
      .ok (some ⟨calmBatch, 0⟩) := by
    have hpick : Oldest.first.pick (calmSpool.working.rows.filter
        (fun r => r.nextAttemptAt.le (.finite 101))) = some (spoolRow plainBytes 100 calmBatch) := rfl
    rw [nextReady, hpick]
    simp only [spoolRow, TelemetryBatch.validate_modelDumpJson]
    rfl
  exact ((((deliveryRun_spooled.step (.restart rfl)).agent .enter).agent (.collect hsample)).agent
    (.notFull (by decide))).agent (.read hread)

/-- It is stored, published and processed, and the answer deletes its row. -/
theorem deliveryRun_processed : ∃ w event,
    DeliveryRun .canonical plainSettings plainBytes (fun _ : Bool => smallSettings) w ∧
    w.DistinctIds ∧ w.built = [calmBatch] ∧ w.spooled = [calmBatch] ∧ w.evicted = [] ∧
    w.spool.durable.keys = [] ∧
    w.config.shared.db.outboxEvents.rows = [event] ∧
    w.config.shared.stream.entries[0]? = some (publishFields event) ∧
    w.config.shared.stream.Acked 0 ∧ event.aggregateId = calmBatch.batchId.str := by
  have hvalidate : TelemetryBatch.validate .canonical calmBatch.modelDumpJson = some calmBatch := by
    rw [TelemetryBatch.validate_modelDumpJson]
    rfl
  have hserved := deliveryRun_posted.step (.receive (i := false) (k := 0) rfl hvalidate
    (.api (.receive _ 5 _ (correlationOf calmBatch.batchId.str (uniformId 4)))))
  rw [correlationOf_str] at hserved
  have hcheck : let row := outboxEvent 5 (uniformId 3) calmBatch.batchId.str calmBatch
      (schedule Libraries.canonical (fun _ : Bool => smallSettings)
      ((false, .commit 5 (uniformId 3)) ::
        (publishActions [row] ++ readActions ++ handleActions).map (fun a => (true, a))) []
      ⟨Shared.init Bool, Function.update (fun _ => Local.idle) false
        (.ingesting 5 calmBatch calmBatch.batchId.str)⟩).any
      (fun r => decide (r.1.all (fun p => p.2.local) = true ∧
        r.2.loc false = .answering calmBatch ⟨calmBatch.batchId, .accepted, calmBatch.batchId.str⟩ ∧
        r.2.shared.db.outboxEvents.rows = [markPublished 100 row] ∧
        r.2.shared.stream.entries[0]? = some (publishFields (markPublished 100 row)) ∧
        r.2.shared.stream.Acked 0)) = true := by
    decide +kernel
  obtain ⟨t, c, hsteps, hc⟩ := exists_steps hcheck
  obtain ⟨hlocal, hanswering, hrows, hentry, hacked⟩ := of_decide_eq_true hc
  have hanswer : Step .canonical (fun _ : Bool => smallSettings) false c.shared (c.loc false)
      (.answered calmBatch ⟨calmBatch.batchId, .accepted, calmBatch.batchId.str⟩) c.shared .idle := by
    rw [show c.loc false = _ from hanswering]
    exact .api (.answer ..)
  have hanswered : DeliveryRun .canonical plainSettings plainBytes (fun _ : Bool => smallSettings)
      (calmWorld calmSpool ⟨false, calmBatch.samples, .sending ⟨calmBatch, 0⟩⟩
        ⟨c.shared, Function.update c.loc false .idle⟩ [postedRequest calmBatch]
        (Function.update (fun _ => none) false (some 0))
        [(0, ⟨calmBatch.batchId, .accepted, calmBatch.batchId.str⟩)]) :=
    (hserved.steps hsteps hlocal rfl).step (.answer hanswer)
  have hresponded := hanswered.step (.agent .respond (by simp)
    (by rintro response ⟨⟩; exact List.mem_singleton_self _))
  have hgone := (((hresponded.agent
    (@AgentStep.statement _ _ _ _ _ _ _ _ _ _ .first rfl rfl)).agent
    (@AgentStep.statement _ _ _ _ _ _ _ _ _ _ .first rfl rfl)).agent .callReturns)
  exact ⟨_, _, hgone, ⟨List.nodup_singleton _, nofun⟩, rfl, rfl, rfl, rfl, hrows, hentry,
    hacked, rfl⟩

theorem spooled_batch_delivered_calm : ∃ w,
    DeliveryRun .canonical plainSettings plainBytes (fun _ : Bool => smallSettings) w ∧
    w.spooled = [calmBatch] ∧ ∃ record,
      w.config.shared.db.telemetryBatches.rows.filter (fun r => r.batchId = calmBatch.batchId) =
        [record] ∧ record.payload = calmBatch.modelDumpJson := by
  obtain ⟨w, -, hrun, hids, -, hspooled, hevicted, hsent, -⟩ := deliveryRun_processed
  refine ⟨w, hrun, hspooled, ?_⟩
  rcases (spooled_batch_delivered hrun hids).1 calmBatch (by simp [hspooled]) with
    ⟨row, hrow, -⟩ | hgone | ⟨record, _, hone, hpayload, -⟩
  · have hkey := Table.key_mem_keys hrow
    rw [hsent] at hkey
    cases hkey
  · rw [hevicted] at hgone
    cases hgone
  · exact ⟨record, hone, hpayload⟩

/-- The batch is gone from the file since it is stored. -/
theorem telemetry_delivered_calm : ∃ w,
    DeliveryRun .canonical plainSettings plainBytes (fun _ : Bool => smallSettings) w ∧
    w.spooled = [calmBatch] ∧ w.spool.durable.rows = [] ∧
    ∃ record ∈ w.config.shared.db.telemetryBatches.rows, record.batchId = calmBatch.batchId ∧
      record.payload = calmBatch.modelDumpJson := by
  obtain ⟨w, -, hrun, hids, -, hspooled, hevicted, hsent, -⟩ := deliveryRun_processed
  have hgone : w.spool.durable.rows = [] := List.map_eq_nil_iff.mp hsent
  refine ⟨w, hrun, hspooled, hgone, ?_⟩
  rcases (telemetry_delivered hrun hids).1 calmBatch (by simp [hspooled]) with
    ⟨row, hrow, -⟩ | hdropped | hstored
  · rw [hgone] at hrow
    cases hrow
  · rw [hevicted] at hdropped
    cases hdropped
  · exact hstored

end FleetPulse
