import FleetPulse.Lib.Table
import FleetPulse.Api.Models
import FleetPulse.TelemetryJson

/-! `BatchSpool`: the SQLite table of the agent, one connection on it, and the calls of the class cut
    into their statements.

    A connection sees its own uncommitted changes (`working`); the file holds what was committed last
    (`durable`), and that is what the next process finds. A call on the spool makes one statement
    after another:

        inserting ──▶ evicting ⟲ (a bound is exceeded: delete the oldest row)
                         │
        deleting ────────┤
        updating ────────┴──▶ committing ──▶ done

    `ORDER BY created_at LIMIT 1` promises one of the oldest rows and not which (`Oldest`). The text
    of a payload is represented by the document that it spells, and `textBytes` is its length. -/

namespace FleetPulse
open Values

/-- A row of `batches`. -/
structure SpoolRow where
  batchId : String
  payload : Payload
  payloadBytes : ℕ
  attempts : ℕ
  nextAttemptAt : PyFloat
  lastError : Option String
  createdAt : ℚ

abbrev SpoolTable := Table SpoolRow.batchId

/-- `max_batches` and `max_bytes`. -/
structure SpoolLimits where
  maxBatches : ℕ
  maxBytes : ℕ

/-- `ORDER BY created_at LIMIT 1`. -/
structure Oldest where
  pick : List SpoolRow → Option SpoolRow
  pick_isSome : ∀ rows, rows ≠ [] → (pick rows).isSome
  pick_mem : ∀ rows row, pick rows = some row → row ∈ rows
  pick_le : ∀ rows row, pick rows = some row → ∀ r ∈ rows, row.createdAt ≤ r.createdAt

/-- The first row of the oldest ones. -/
def Oldest.first : Oldest where
  pick := pyMax (fun r best => decide (r.createdAt < best.createdAt))
  pick_isSome _ h := pyMax_isSome _ h
  pick_mem _ _ h := pyMax_mem _ h
  pick_le _ _ h := pyMax_key_le (fun r : SpoolRow => OrderDual.toDual r.createdAt) h

/-- `count()`. -/
def SpoolTable.count (t : SpoolTable) : ℕ := t.rows.length

/-- `total_bytes()`. -/
def SpoolTable.totalBytes (t : SpoolTable) : ℕ := (t.rows.map SpoolRow.payloadBytes).sum

/-- `self.count() > self._max_batches or self.total_bytes() > self._max_bytes`. -/
def SpoolTable.exceeds (limits : SpoolLimits) (t : SpoolTable) : Bool :=
  limits.maxBatches < SpoolTable.count t || limits.maxBytes < SpoolTable.totalBytes t

/-- The eviction statement. -/
def deleteOldest (oldest : Oldest) (t : SpoolTable) : SpoolTable :=
  match oldest.pick t.rows with
  | some row => t.deleteWhere (fun r => r.batchId = row.batchId)
  | none => t

/-- The row that `enqueue` inserts; the other columns have their defaults. -/
def spoolRow (textBytes : Payload → ℕ) (now : ℚ) (batch : TelemetryBatch) : SpoolRow :=
  ⟨batch.batchId.str, batch.modelDumpJson, textBytes batch.modelDumpJson, 0, .finite 0, none, now⟩

/-- What `mark_failed` sets. -/
def SpoolRow.fail (error : String) (nextAttemptAt : PyFloat) (r : SpoolRow) : SpoolRow :=
  { r with attempts := r.attempts + 1, nextAttemptAt,
           lastError := some (String.ofList (error.toList.take 1000)) }

/-- The statement of `mark_failed`. -/
def updateFailed (batchId error : String) (nextAttemptAt : PyFloat) (t : SpoolTable) : SpoolTable :=
  t.updateWhere (fun r => r.batchId = batchId) (SpoolRow.fail error nextAttemptAt) (fun _ => rfl)

theorem rows_updateFailed (batchId error : String) (nextAttemptAt : PyFloat) (t : SpoolTable) :
    (updateFailed batchId error nextAttemptAt t).rows =
      t.rows.map (fun r => if r.batchId = batchId then r.fail error nextAttemptAt else r) := by
  change t.rows.map _ = _
  exact List.map_congr_left (fun r _ => by simp only [decide_eq_true_eq])

/-- The file, and the connection on it. -/
structure Connection where
  durable : SpoolTable
  working : SpoolTable

/-- `sqlite3.connect(path)` on the file as it is. -/
def Connection.connect (t : SpoolTable) : Connection := ⟨t, t⟩

/-- The statement that a call makes next; `done` with what it returns. -/
inductive SpoolCall where
  | inserting (row : SpoolRow)
  | evicting (dropped : ℕ)
  | deleting (batchId : String)
  | updating (batchId error : String) (nextAttemptAt : PyFloat)
  | committing (dropped : ℕ)
  | done (dropped : ℕ)

/-- `enqueue(batch)` at the clock reading `now`. -/
def SpoolCall.enqueue (textBytes : Payload → ℕ) (now : ℚ) (batch : TelemetryBatch) : SpoolCall :=
  .inserting (spoolRow textBytes now batch)

/-- `mark_sent(batch_id)`. -/
def SpoolCall.markSent (batchId : UUID) : SpoolCall := .deleting batchId.str

/-- `mark_failed(batch_id, error, next_attempt_at)`. -/
def SpoolCall.markFailed (batchId : UUID) (error : String) (nextAttemptAt : PyFloat) : SpoolCall :=
  .updating batchId.str error nextAttemptAt

/-- One statement. SQLite stores NaN as NULL, which the column refuses. -/
def SpoolCall.step (limits : SpoolLimits) (oldest : Oldest) :
    SpoolCall → Connection → Except PyError (SpoolCall × Connection)
  | .inserting row, c => .ok (.evicting 0, { c with working := (c.working.insertOrIgnore row).1 })
  | .evicting dropped, c =>
    if SpoolTable.exceeds limits c.working then
      .ok (.evicting (dropped + (c.working.rows.length -
        (deleteOldest oldest c.working).rows.length)),
        { c with working := deleteOldest oldest c.working })
    else .ok (.committing dropped, c)
  | .deleting batchId, c => .ok (.committing 0,
      { c with working := c.working.deleteWhere (fun r => r.batchId = batchId) })
  | .updating batchId error nextAttemptAt, c =>
    if nextAttemptAt = .nan ∧ batchId ∈ c.working.keys then .error .integrity
    else .ok (.committing 0,
      { c with working := updateFailed batchId error nextAttemptAt c.working })
  | .committing dropped, c => .ok (.done dropped, { c with durable := c.working })
  | .done dropped, c => .ok (.done dropped, c)

/-- At most `n` statements. -/
def SpoolCall.runFor (limits : SpoolLimits) (oldest : Oldest) :
    ℕ → SpoolCall → Connection → Except PyError (SpoolCall × Connection)
  | 0, call, c => .ok (call, c)
  | n + 1, call, c => (call.step limits oldest c).bind (fun r => runFor limits oldest n r.1 r.2)

structure PendingBatch where
  batch : TelemetryBatch
  attempts : ℕ
  deriving DecidableEq

/-- `next_ready(now)`. -/
def nextReady (libs : Libraries) (oldest : Oldest) (now : PyFloat) (t : SpoolTable) :
    Except PyError (Option PendingBatch) :=
  match oldest.pick (t.rows.filter (fun r => r.nextAttemptAt.le now)) with
  | none => .ok none
  | some row =>
    match TelemetryBatch.validate libs row.payload with
    | some batch => .ok (some ⟨batch, row.attempts⟩)
    | none => .error .validation

end FleetPulse
