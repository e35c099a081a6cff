import FleetPulse.Agent.Delivery

/-! The file that the agent leaves behind is within its bounds, whenever and however often a process
    ends, and even if calls on the spool raise.

    The table that the connection works on may exceed the bounds: between the insert and the last
    eviction of an enqueue, and behind an eviction that raised. None of these is committed: the only way
    from there to a commit is through the eviction loop. -/

namespace FleetPulse
open Values

/-- The files that the processes of an agent leave behind, each ended at any point. -/
inductive SpoolFile (libs : Libraries) (settings : AgentSettings) (textBytes : Payload → ℕ) :
    SpoolTable → Prop
  | empty : SpoolFile libs settings textBytes .empty
  | ended {spool t c l} : SpoolFile libs settings textBytes spool →
      AgentRun libs settings textBytes (.connect spool) t c l →
      SpoolFile libs settings textBytes c.durable

/-- The row was written for a batch, and its size is counted as it is. -/
def SpoolRow.Written (textBytes : Payload → ℕ) (row : SpoolRow) : Prop :=
  (∃ batch, row.IsOf batch) ∧ row.payloadBytes = textBytes row.payload

/-- Where the table of the connection may exceed the bounds. -/
def AgentControl.mayExceed : AgentControl → Bool
  | .calling (.enqueue _) (.evicting _) | .calling (.flush _) (.evicting _)
  | .calling (.flush _) (.inserting _) | .finishing | .closing | .ended => true
  | _ => false

/-- The statement of the open call is one of its own. -/
def AgentControl.Allows (textBytes : Payload → ℕ) : AgentControl → Prop
  | .calling use call => use.Allows textBytes call
  | _ => True

/-- `max_batches` and `max_bytes` are kept. -/
structure SpoolTable.Within (limits : SpoolLimits) (t : SpoolTable) : Prop where
  batches : t.rows.length ≤ limits.maxBatches
  bytes : (t.rows.map SpoolRow.payloadBytes).sum ≤ limits.maxBytes

/-- The bounds of the file and, but for these places, of the table of the connection. -/
structure Bounded (limits : SpoolLimits) (textBytes : Payload → ℕ) (c : Connection)
    (control : AgentControl) : Prop where
  durable : SpoolTable.Within limits c.durable
  working : control.mayExceed = false → SpoolTable.Within limits c.working
  written : ∀ row, row ∈ c.durable.rows ∨ row ∈ c.working.rows → row.Written textBytes
  allowed : control.Allows textBytes

section
variable {libs : Libraries} {settings : AgentSettings} {limits : SpoolLimits} {oldest : Oldest}
  {textBytes : Payload → ℕ} {spool c c' : Connection} {t : List AgentEvent} {l l' : AgentLoop}
  {e : AgentEvent}

theorem within_of_not_exceeds {t : SpoolTable} (h : ¬ SpoolTable.exceeds limits t = true) :
    SpoolTable.Within limits t := by
  rw [SpoolTable.exceeds, Bool.or_eq_true, not_or, decide_eq_true_eq, decide_eq_true_eq, not_lt,
    not_lt] at h
  exact ⟨h.1, h.2⟩

theorem SpoolTable.Within.of_sublist {t t' : SpoolTable} (h : SpoolTable.Within limits t)
    (hrows : t'.rows.Sublist t.rows) : SpoolTable.Within limits t' :=
  ⟨hrows.length_le.trans h.batches,
    ((hrows.map SpoolRow.payloadBytes).sum_le_sum (fun _ _ => Nat.zero_le _)).trans h.bytes⟩

theorem SpoolTable.Within.updateFailed {t : SpoolTable} (h : SpoolTable.Within limits t)
    (batchId error : String) (nextAttemptAt : PyFloat) :
    SpoolTable.Within limits (updateFailed batchId error nextAttemptAt t) := by
  have hbytes : SpoolRow.payloadBytes ∘ (fun r : SpoolRow =>
      if r.batchId = batchId then r.fail error nextAttemptAt else r) = SpoolRow.payloadBytes := by
    funext r
    simp only [Function.comp]
    split <;> rfl
  refine ⟨?_, ?_⟩
  · rw [rows_updateFailed, List.length_map]
    exact h.batches
  · rw [rows_updateFailed, List.map_map, hbytes]
    exact h.bytes

theorem mem_of_mem_deleteOldest {t : SpoolTable} {row : SpoolRow}
    (h : row ∈ (deleteOldest oldest t).rows) : row ∈ t.rows := by
  unfold deleteOldest at h
  split at h
  · exact List.mem_of_mem_filter h
  · exact h

theorem written_spoolRow (now : ℚ) (batch : TelemetryBatch) :
    (spoolRow textBytes now batch).Written textBytes := ⟨⟨batch, rfl, rfl⟩, rfl⟩

theorem SpoolRow.Written.fail {row : SpoolRow} (h : row.Written textBytes) (error : String)
    (nextAttemptAt : PyFloat) : (row.fail error nextAttemptAt).Written textBytes := h

namespace Bounded

/-- A step that leaves the tables alone. -/
theorem quiet {control control' : AgentControl} (h : Bounded limits textBytes c control)
    (hexceed : control'.mayExceed = false → control.mayExceed = false)
    (hallowed : control'.Allows textBytes) :
    Bounded limits textBytes c control' :=
  ⟨h.durable, fun hwithin => h.working (hexceed hwithin), h.written, hallowed⟩

/-- A step of a call that changes the table of the connection. -/
theorem execute {use : SpoolUse} {call call' : SpoolCall} {working : SpoolTable}
    (h : Bounded limits textBytes c (.calling use call))
    (hwithin : (AgentControl.calling use call').mayExceed = false → SpoolTable.Within limits working)
    (hwritten : ∀ row ∈ working.rows, row.Written textBytes)
    (hallowed : use.Allows textBytes call') :
    Bounded limits textBytes { c with working } (.calling use call') := by
  refine ⟨h.durable, hwithin, fun row hrow => ?_, hallowed⟩
  exact hrow.elim (fun hrow => h.written row (.inl hrow)) (hwritten row)

/-- A statement of a call. -/
theorem statement {use : SpoolUse} {call call' : SpoolCall}
    (h : Bounded limits textBytes c (.calling use call)) (hopen : call.isOpen = true)
    (hstep : call.step limits oldest c = .ok (call', c')) :
    Bounded limits textBytes c' (.calling use call') := by
  have hallowed : use.Allows textBytes call := h.allowed
  have hworking : ∀ row ∈ c.working.rows, row.Written textBytes :=
    fun row hrow => h.written row (.inr hrow)
  cases call with
  | inserting row =>
    cases hstep
    have hinserted : row.Written textBytes → ∀ r ∈ (c.working.insertOrIgnore row).1.rows,
        r.Written textBytes := by
      intro hrow r hr
      rcases c.working.insertOrIgnore_cases row with ⟨-, hrows, -⟩ | ⟨-, hrows, -⟩
      · exact hworking r (hrows ▸ hr)
      · rw [hrows] at hr
        rcases List.mem_append.mp hr with hr | hr
        · exact hworking r hr
        · exact List.mem_singleton.mp hr ▸ hrow
    cases use with
    | enqueue batch | flush batch =>
      obtain ⟨now, rfl⟩ := hallowed
      exact h.execute (by simp [AgentControl.mayExceed]) (hinserted (written_spoolRow now batch)) trivial
    | markSent | markFailed => exact absurd hallowed id
  | evicting dropped =>
    rw [SpoolCall.step] at hstep
    split at hstep
    · cases hstep
      cases use with
      | enqueue batch | flush batch =>
        exact h.execute (by simp [AgentControl.mayExceed])
          (fun row hrow => hworking row (mem_of_mem_deleteOldest hrow)) trivial
      | markSent | markFailed => exact absurd hallowed id
    · next hwithin =>
      cases hstep
      exact h.execute (fun _ => within_of_not_exceeds hwithin) hworking (by cases use <;> trivial)
  | deleting batchId =>
    cases hstep
    cases use with
    | markSent pending =>
      refine h.execute (fun _ => (h.working rfl).of_sublist List.filter_sublist) ?_ trivial
      exact fun row hrow => hworking row (List.mem_of_mem_filter hrow)
    | enqueue | flush | markFailed => exact absurd hallowed id
  | updating batchId error nextAttemptAt =>
    rw [SpoolCall.step] at hstep
    split at hstep <;> cases hstep
    cases use with
    | markFailed pending =>
      refine h.execute (fun _ => (h.working rfl).updateFailed batchId error nextAttemptAt) ?_ trivial
      intro row hrow
      rw [rows_updateFailed] at hrow
      obtain ⟨r, hr, rfl⟩ := List.mem_map.mp hrow
      split
      · exact (hworking r hr).fail error nextAttemptAt
      · exact hworking r hr
    | enqueue | flush | markSent => exact absurd hallowed id
  | committing dropped =>
    cases hstep
    have hwithin : SpoolTable.Within limits c.working := h.working (by cases use <;> rfl)
    refine ⟨hwithin, fun _ => hwithin, fun row hrow => hworking row (hrow.elim id id), ?_⟩
    cases use <;> trivial
  | done dropped => cases hopen

/-- One step, whether or not the spool raises. -/
theorem step (h : Bounded settings.limits textBytes c l.control)
    (hstep : AgentStep libs settings textBytes c l e c' l') :
    Bounded settings.limits textBytes c' l'.control := by
  cases hstep with
  | signal => exact h
  | statement hopen hcall => exact h.statement hopen hcall
  | @statementRaises _ _ use =>
    cases use with
    | enqueue | flush | markFailed => exact h.quiet nofun trivial
    | markSent => exact h.quiet (fun _ => rfl) trivial
  | @callReturns _ _ use =>
    cases use <;> exact h.quiet (fun _ => rfl) trivial
  | build => exact h.quiet (fun _ => rfl) ⟨_, rfl⟩
  | flush => exact h.quiet nofun ⟨_, rfl⟩
  | respond => exact h.quiet (fun _ => rfl) rfl
  | reschedule => exact h.quiet (fun _ => rfl) trivial
  | close =>
    exact ⟨h.durable, fun _ => h.durable, fun row hrow => h.written row (.inl (hrow.elim id id)), trivial⟩
  | nothingToFlush | flushRaises => exact h.quiet nofun trivial
  | enter | leave | collect | collectRaises | full | notFull | buildRaises | reset | readNone | read
  | readRaises | queryRaises | sendRaises | sendCancelled | delayRaises | wait | waitCancelled =>
    exact h.quiet (fun _ => rfl) trivial

end Bounded

/-- Every process that starts on a file within the bounds. -/
theorem AgentRun.bounded {spool : SpoolTable}
    (h : AgentRun libs settings textBytes (.connect spool) t c l)
    (hspool : SpoolTable.Within settings.limits spool)
    (hwritten : ∀ row ∈ spool.rows, row.Written textBytes) :
    Bounded settings.limits textBytes c l.control := by
  induction h with
  | start => exact ⟨hspool, fun _ => hspool, fun row hrow => hwritten row (hrow.elim id id), trivial⟩
  | step _ hstep ih => exact ih.step hstep

/-- Every file that is left behind. -/
theorem SpoolFile.bounded {file : SpoolTable} (h : SpoolFile libs settings textBytes file) :
    SpoolTable.Within settings.limits file ∧ ∀ row ∈ file.rows, row.Written textBytes := by
  induction h with
  | empty => exact ⟨⟨Nat.zero_le _, Nat.zero_le _⟩, nofun⟩
  | ended _ hrun ih =>
    have hbounded := hrun.bounded ih.1 ih.2
    exact ⟨hbounded.durable, fun row hrow => hbounded.written row (.inl hrow)⟩

/-- BOUNDED ON DISK: whatever processes have written the file, wherever each of them ended and
    whatever raised, the file holds at most `max_batches` batches with `max_bytes` bytes of JSON. -/
theorem spool_file_bounded {file : SpoolTable} (h : SpoolFile libs settings textBytes file) :
    file.rows.length ≤ settings.limits.maxBatches ∧
    (file.rows.map (fun row => textBytes row.payload)).sum ≤ settings.limits.maxBytes ∧
    ∀ row ∈ file.rows, ∃ batch : TelemetryBatch,
      row.batchId = batch.batchId.str ∧ row.payload = batch.modelDumpJson := by
  obtain ⟨hwithin, hwritten⟩ := h.bounded
  have hbytes : file.rows.map (fun row => textBytes row.payload) =
      file.rows.map SpoolRow.payloadBytes :=
    List.map_congr_left (fun row hrow => (hwritten row hrow).2.symm)
  exact ⟨hwithin.batches, hbytes ▸ hwithin.bytes, fun row hrow => (hwritten row hrow).1⟩

end

theorem spool_file_bounded_flushed : ∃ file, SpoolFile .canonical plainSettings plainBytes file ∧
    file.rows = [spoolRow plainBytes 100 calmBatch] ∧
    (file.rows.map (fun row => plainBytes row.payload)).sum ≤ 67108864 := by
  obtain ⟨t, c, l, hrun, -, -, -, -, hrows⟩ := agentRun_flushed
  have hfile : SpoolFile .canonical plainSettings plainBytes c.durable := .ended .empty hrun
  exact ⟨_, hfile, hrows, (spool_file_bounded hfile).2.1⟩

end FleetPulse
