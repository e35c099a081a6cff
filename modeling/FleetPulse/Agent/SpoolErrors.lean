import FleetPulse.Agent.SpoolQueue

/-! What a call on the spool leaves behind when SQLite raises at one of its statements.

    The call has no rollback. What its earlier statements did stays in the open transaction of the
    connection, and the next call that commits commits it too:

        INSERT ─ evictions ─ commit ✗      the file is unchanged
        INSERT ─ evictions ─ commit        the file has the rows of both calls

    `LeavesTable` says when the earlier statements have left the table as it was; these are exactly
    the errors after which nobody can tell that the call was made. -/

namespace FleetPulse
open Values

/-- The statements of a call, and which of equally old rows they take. -/
def SpoolOp.call? (textBytes : Payload → ℕ) : SpoolOp → Option (Oldest × SpoolCall)
  | .enqueue oldest now batch => some (oldest, .enqueue textBytes now batch)
  | .markSent batchId => some (.first, .markSent batchId)
  | .markFailed batchId error nextAttemptAt => some (.first, .markFailed batchId error nextAttemptAt)
  | .nextReady _ _ | .reopen => none

/-- The connection when SQLite raises at the statement number `n` of the call; the number counts an
    eviction with the two queries before it as one. -/
def SpoolCall.raisedAt (limits : SpoolLimits) (oldest : Oldest) (n : ℕ) (call : SpoolCall)
    (c : Connection) : Connection :=
  match call.runFor limits oldest n c with
  | .ok (_, c') => c'
  | .error _ => c

/-- A call that comes to its end, or one at which SQLite raises. -/
def attempt (libs : Libraries) (limits : SpoolLimits) (textBytes : Payload → ℕ) (c : Connection)
    (x : SpoolOp × Option ℕ) : Connection :=
  match x.2, x.1.call? textBytes with
  | some n, some (oldest, call) => call.raisedAt limits oldest n c
  | _, _ => (x.1.perform libs limits textBytes c).2

/-- Any calls that follow on the same connection. -/
def follow (libs : Libraries) (limits : SpoolLimits) (textBytes : Payload → ℕ)
    (rest : List (SpoolOp × Option ℕ)) (c : Connection) : Connection :=
  rest.foldl (attempt libs limits textBytes) c

/-- The first `n` statements of the call leave the table as it is: there are none; or they insert a
    row that is there and evict nothing; or they insert a row and evict just that row; or they change
    a row that is not there. -/
def LeavesTable (limits : SpoolLimits) (oldest : Oldest) (n : ℕ) (t : SpoolTable) :
    SpoolCall → Prop
  | .inserting row => n = 0 ∨
      (row.batchId ∈ t.keys ∧ (n = 1 ∨ SpoolTable.exceeds limits t = false)) ∨
      (row.batchId ∉ t.keys ∧ 2 ≤ n ∧ SpoolTable.exceeds limits (t.insertOrIgnore row).1 = true ∧
        oldest.pick (t.rows ++ [row]) = some row ∧
        (n = 2 ∨ SpoolTable.exceeds limits t = false))
  | .deleting batchId | .updating batchId _ _ => n = 0 ∨ batchId ∉ t.keys
  | _ => True

/-! ### Statements before the error -/

section
variable {limits : SpoolLimits} {oldest : Oldest} {c c' : Connection} {call call' : SpoolCall}
  {t : SpoolTable} {n : ℕ}

/-- The call has not come to its end. -/
def SpoolCall.isOpen : SpoolCall → Bool
  | .done _ => false
  | _ => true

theorem committing_raised {dropped : ℕ}
    (h : (SpoolCall.committing dropped).runFor limits oldest n c = .ok (call', c'))
    (hopen : call'.isOpen = true) : c' = c := by
  cases n with
  | zero => cases h; rfl
  | succ n =>
    have hdone : (SpoolCall.committing dropped).runFor limits oldest (n + 1) c =
        .ok (.done dropped, { c with durable := c.working }) := runFor_done n dropped _
    rw [hdone] at h
    cases h
    cases hopen

theorem exists_pick (oldest : Oldest) (h : SpoolTable.exceeds limits t = true) : ∃ row ∈ t.rows,
    oldest.pick t.rows = some row ∧
    (deleteOldest oldest t).rows = t.rows.filter (fun r => r.batchId ≠ row.batchId) := by
  have hne : t.rows ≠ [] := by
    intro hnil
    simp [SpoolTable.exceeds, SpoolTable.count, SpoolTable.totalBytes, hnil] at h
  obtain ⟨row, hrow⟩ := Option.isSome_iff_exists.mp (oldest.pick_isSome _ hne)
  refine ⟨row, oldest.pick_mem _ _ hrow, hrow, ?_⟩
  simp [deleteOldest, hrow]

theorem evicting_same {dropped : ℕ}
    (h : (SpoolCall.evicting dropped).runFor limits oldest n c = .ok (call', c'))
    (hopen : call'.isOpen = true) (hn : n = 0 ∨ SpoolTable.exceeds limits c.working = false) :
    c' = c := by
  cases n with
  | zero => cases h; rfl
  | succ n =>
    have hexceeds := hn.resolve_left (Nat.succ_ne_zero n)
    simp only [SpoolCall.runFor, SpoolCall.step, hexceeds, Bool.false_eq_true, if_false,
      Except.bind] at h
    exact committing_raised h hopen

/-- Evictions before the error only take rows out of the open transaction. -/
theorem evicting_raised : ∀ {n dropped : ℕ} {c : Connection},
    (SpoolCall.evicting dropped).runFor limits oldest n c = .ok (call', c') →
    call'.isOpen = true → c'.durable = c.durable ∧ ∀ r ∈ c'.working.rows, r ∈ c.working.rows
  | 0, _, _, h, _ => by cases h; exact ⟨rfl, fun _ h => h⟩
  | n + 1, dropped, c, h, hopen => by
      cases hexceeds : SpoolTable.exceeds limits c.working with
      | false =>
        rw [evicting_same h hopen (Or.inr hexceeds)]
        exact ⟨rfl, fun _ h => h⟩
      | true =>
        rw [evicting_next hexceeds] at h
        obtain ⟨hdurable, hsub⟩ := evicting_raised h hopen
        obtain ⟨row, -, -, hrows⟩ := exists_pick oldest hexceeds
        refine ⟨hdurable, fun r hr => ?_⟩
        have hkept := hsub r hr
        simp only [hrows] at hkept
        exact List.mem_of_mem_filter hkept

/-- Once an eviction has run, the row that it took is gone. -/
theorem evicting_drops {dropped : ℕ}
    (h : (SpoolCall.evicting dropped).runFor limits oldest (n + 1) c = .ok (call', c'))
    (hopen : call'.isOpen = true) (hexceeds : SpoolTable.exceeds limits c.working = true) :
    ∃ row ∈ c.working.rows, oldest.pick c.working.rows = some row ∧ row ∉ c'.working.rows := by
  obtain ⟨row, hrow, hpick, hrows⟩ := exists_pick oldest hexceeds
  rw [evicting_next hexceeds] at h
  refine ⟨row, hrow, hpick, fun hmem => ?_⟩
  have hkept := (evicting_raised h hopen).2 row hmem
  simp only [hrows, List.mem_filter, ne_eq, not_true_eq_false, decide_false, Bool.false_eq_true,
    and_false] at hkept

/-- The table after the statements has the rows it had. -/
def SameRows (t t' : SpoolTable) : Prop := ∀ r, r ∈ t'.rows ↔ r ∈ t.rows

/-- An `enqueue` of an id that is there leaves the table unless it evicts. -/
theorem inserting_known {row : SpoolRow} (hmem : row.batchId ∈ c.working.keys)
    (h : (SpoolCall.inserting row).runFor limits oldest (n + 1) c = .ok (call', c'))
    (hopen : call'.isOpen = true) :
    c'.durable = c.durable ∧
      (SameRows c.working c'.working → n = 0 ∨ SpoolTable.exceeds limits c.working = false) ∧
      (n = 0 ∨ SpoolTable.exceeds limits c.working = false → c'.working = c.working) := by
  have hstart : (SpoolCall.evicting 0).runFor limits oldest n c = .ok (call', c') := by
    simpa only [SpoolCall.runFor, SpoolCall.step, Table.insertOrIgnore_of_mem hmem, Except.bind]
      using h
  refine ⟨(evicting_raised hstart hopen).1, fun hsame => ?_, fun hn => ?_⟩
  · by_contra hno
    obtain ⟨hne, hexceeds⟩ := not_or.mp hno
    obtain ⟨m, rfl⟩ := Nat.exists_eq_succ_of_ne_zero hne
    obtain ⟨r, hr, -, hgone⟩ := evicting_drops hstart hopen (by simpa using hexceeds)
    exact hgone ((hsame r).mpr hr)
  · rw [evicting_same hstart hopen hn]

/-- The new row goes in and out again. -/
theorem deleteOldest_new {row : SpoolRow} (hnew : row.batchId ∉ t.keys)
    (hpick : oldest.pick (t.rows ++ [row]) = some row) :
    deleteOldest oldest (t.insertOrIgnore row).1 = t := by
  have hrows : (t.insertOrIgnore row).1.rows = t.rows ++ [row] := by
    rw [Table.insertOrIgnore_of_not_mem hnew]; rfl
  refine Table.ext ?_
  simp only [deleteOldest, hrows, hpick, Table.rows_deleteWhere, List.filter_append]
  have hkeep : t.rows.filter (fun r => !decide (r.batchId = row.batchId)) = t.rows := by
    refine List.filter_eq_self.mpr (fun r hr => ?_)
    simpa using fun heq : r.batchId = row.batchId => hnew (heq ▸ Table.key_mem_keys hr)
  simp [hkeep]

/-- An `enqueue` of a new id leaves the table only if it evicts the new row and no other. -/
theorem inserting_new {row : SpoolRow} (hnew : row.batchId ∉ c.working.keys)
    (h : (SpoolCall.inserting row).runFor limits oldest (n + 1) c = .ok (call', c'))
    (hopen : call'.isOpen = true) :
    c'.durable = c.durable ∧
      (SameRows c.working c'.working →
        n ≠ 0 ∧ SpoolTable.exceeds limits (c.working.insertOrIgnore row).1 = true ∧
        oldest.pick (c.working.rows ++ [row]) = some row ∧
        (n = 1 ∨ SpoolTable.exceeds limits c.working = false)) ∧
      (n ≠ 0 ∧ SpoolTable.exceeds limits (c.working.insertOrIgnore row).1 = true ∧
        oldest.pick (c.working.rows ++ [row]) = some row ∧
        (n = 1 ∨ SpoolTable.exceeds limits c.working = false) → c'.working = c.working) := by
  have hrows : (c.working.insertOrIgnore row).1.rows = c.working.rows ++ [row] := by
    rw [Table.insertOrIgnore_of_not_mem hnew]; rfl
  have hstart : (SpoolCall.evicting 0).runFor limits oldest n
      { c with working := (c.working.insertOrIgnore row).1 } = .ok (call', c') := by
    simpa only [SpoolCall.runFor, SpoolCall.step, Except.bind] using h
  refine ⟨(evicting_raised hstart hopen).1, fun hsame => ?_, ?_⟩
  · have hgone : row ∉ c'.working.rows := fun hmem =>
      hnew (Table.key_mem_keys ((hsame row).mp hmem))
    have hevicts : ¬ (n = 0 ∨
        SpoolTable.exceeds limits (c.working.insertOrIgnore row).1 = false) := by
      intro hn
      rw [evicting_same hstart hopen hn] at hgone
      exact hgone (by simp [hrows])
    obtain ⟨hne, hexceeds⟩ := not_or.mp hevicts
    obtain ⟨m, rfl⟩ := Nat.exists_eq_succ_of_ne_zero hne
    rw [Bool.not_eq_false] at hexceeds
    obtain ⟨r, hr, hpick, hr'⟩ := evicting_drops hstart hopen hexceeds
    simp only [hrows] at hr hpick
    obtain rfl : r = row := by
      rcases List.mem_append.mp hr with hr | hr
      · exact absurd ((hsame r).mpr hr) hr'
      · exact List.mem_singleton.mp hr
    refine ⟨hne, hexceeds, hpick, ?_⟩
    by_contra hno
    obtain ⟨hm, hagain⟩ := not_or.mp hno
    obtain ⟨k, rfl⟩ := Nat.exists_eq_succ_of_ne_zero (fun h0 : m = 0 => hm (by rw [h0]))
    rw [evicting_next hexceeds, deleteOldest_new hnew hpick] at hstart
    obtain ⟨r', hmem, -, hgone'⟩ := evicting_drops hstart hopen (by simpa using hagain)
    exact hgone' ((hsame r').mpr hmem)
  · rintro ⟨hne, hexceeds, hpick, hn⟩
    obtain ⟨m, rfl⟩ := Nat.exists_eq_succ_of_ne_zero hne
    rw [evicting_next hexceeds, deleteOldest_new hnew hpick] at hstart
    rw [evicting_same hstart hopen (hn.imp_left Nat.succ.inj)]

/-- The statement of `mark_sent`. -/
theorem deleting_raised {batchId : String}
    (h : (SpoolCall.deleting batchId).runFor limits oldest (n + 1) c = .ok (call', c'))
    (hopen : call'.isOpen = true) :
    c'.durable = c.durable ∧ (SameRows c.working c'.working → batchId ∉ c.working.keys) ∧
      (batchId ∉ c.working.keys → c'.working = c.working) := by
  simp only [SpoolCall.runFor, SpoolCall.step, Except.bind] at h
  obtain rfl := committing_raised h hopen
  refine ⟨rfl, fun hsame hmem => ?_, fun hnot => Table.ext ?_⟩
  · obtain ⟨r, hr, hid⟩ := Table.mem_keys.mp hmem
    have hkept := (hsame r).mpr hr
    simp [hid] at hkept
  · simp only [Table.rows_deleteWhere]
    refine List.filter_eq_self.mpr (fun r hr => ?_)
    simpa using fun heq : r.batchId = batchId => hnot (heq ▸ Table.key_mem_keys hr)

/-- The statement of `mark_failed`. -/
theorem updating_raised {batchId error : String} {nextAttemptAt : PyFloat}
    (h : (SpoolCall.updating batchId error nextAttemptAt).runFor limits oldest (n + 1) c =
      .ok (call', c')) (hopen : call'.isOpen = true) :
    c'.durable = c.durable ∧ (SameRows c.working c'.working → batchId ∉ c.working.keys) ∧
      (batchId ∉ c.working.keys → c'.working = c.working) := by
  by_cases hnan : nextAttemptAt = .nan ∧ batchId ∈ c.working.keys
  · simp [SpoolCall.runFor, SpoolCall.step, hnan, Except.bind] at h
  simp only [SpoolCall.runFor, SpoolCall.step, if_neg hnan, Except.bind] at h
  obtain rfl := committing_raised h hopen
  refine ⟨rfl, fun hsame hmem => ?_, fun hnot => Table.ext ?_⟩
  · obtain ⟨r, hr, hid⟩ := Table.mem_keys.mp hmem
    have hkept := (hsame r).mpr hr
    simp only [rows_updateFailed] at hkept
    obtain ⟨r₀, hr₀, heq⟩ := List.mem_map.mp hkept
    split at heq
    · next hid₀ =>
      -- the row of the id counts one attempt more than before
      obtain rfl := c.working.eq_of_key_eq hr₀ hr (hid₀.trans hid.symm)
      have hattempts := congrArg SpoolRow.attempts heq
      simp [SpoolRow.fail] at hattempts
    · next hid₀ => exact hid₀ (heq ▸ hid)
  · have hkeep : ∀ r ∈ c.working.rows,
        (if r.batchId = batchId then r.fail error nextAttemptAt else r) = id r := by
      intro r hr
      rw [if_neg (fun heq : r.batchId = batchId => hnot (heq ▸ Table.key_mem_keys hr)), id]
    rw [rows_updateFailed, List.map_congr_left hkeep, List.map_id]

end

/-! ### The calls that follow -/

section
variable {libs : Libraries} {limits : SpoolLimits} {textBytes : Payload → ℕ} {oldest : Oldest}
  {op : SpoolOp} {c c' : Connection} {call call' : SpoolCall} {n : ℕ}

/-- Some identifier has another text. -/
theorem exists_uuid_ne (s : String) : ∃ batchId : UUID, batchId.str ≠ s := by
  by_contra hall
  push Not at hall
  have hsame := UUID.str_injective ((hall ⟨List.replicate 32 0, List.length_replicate⟩).trans
    (hall ⟨List.replicate 32 1, List.length_replicate⟩).symm)
  exact absurd hsame (by decide)

/-- If nobody can tell the tables apart by a `mark_sent`, they have the same rows. -/
theorem sameRows_of_follow (h : ∀ rest : List (SpoolOp × Option ℕ),
    (follow libs limits textBytes rest c').durable = (follow libs limits textBytes rest c).durable) :
    SameRows c.working c'.working := by
  intro r
  obtain ⟨batchId, hid⟩ := exists_uuid_ne r.batchId
  have hrows := congrArg Table.rows (h [(.markSent batchId, none)])
  have hafter : ∀ c : Connection, (follow libs limits textBytes [(.markSent batchId, none)] c).durable =
      c.working.deleteWhere (fun r => r.batchId = batchId.str) := fun c => by
    simp only [follow, List.foldl_cons, List.foldl_nil, attempt, SpoolOp.perform]
    have hrun : (SpoolCall.markSent batchId).runFor limits .first 2 c = .ok (.done 0, _) := rfl
    rw [perform_of_runFor hrun (by omega)]
  rw [hafter, hafter] at hrows
  have hmem : ∀ t : SpoolTable, r ∈ t.rows ↔
      r ∈ (t.deleteWhere (fun r => r.batchId = batchId.str)).rows := fun t => by
    simp [List.mem_filter, Ne.symm hid]
  rw [hmem, hmem c.working, hrows]

/-- What an error at the statement number `n` leaves behind. -/
theorem raised_leaves (hop : op.call? textBytes = some (oldest, call))
    (hraise : call.runFor limits oldest n c = .ok (call', c')) (hopen : call'.isOpen = true) :
    c'.durable = c.durable ∧
      (SameRows c.working c'.working → LeavesTable limits oldest n c.working call) ∧
      (LeavesTable limits oldest n c.working call → c'.working = c.working) := by
  cases n with
  | zero =>
    cases hraise
    refine ⟨rfl, fun _ => ?_, fun _ => rfl⟩
    cases call <;> simp [LeavesTable]
  | succ n =>
    cases op with
    | enqueue oldest' now batch =>
      cases hop
      by_cases hmem : (spoolRow textBytes now batch).batchId ∈ c.working.keys
      · obtain ⟨hdurable, hcond, hsame⟩ := inserting_known hmem hraise hopen
        refine ⟨hdurable, fun h => Or.inr (Or.inl ⟨hmem, ?_⟩), fun h => hsame ?_⟩
        · exact (hcond h).imp_left (congrArg Nat.succ)
        · rcases h with h | ⟨-, h⟩ | ⟨hnew, -⟩
          · cases h
          · exact h.imp_left Nat.succ.inj
          · exact absurd hmem hnew
      · obtain ⟨hdurable, hcond, hsame⟩ := inserting_new hmem hraise hopen
        refine ⟨hdurable, fun h => Or.inr (Or.inr ⟨hmem, ?_⟩), fun h => hsame ?_⟩
        · obtain ⟨hne, hexceeds, hpick, hn⟩ := hcond h
          exact ⟨by omega, hexceeds, hpick, hn.imp_left (congrArg Nat.succ)⟩
        · rcases h with h | ⟨hknown, -⟩ | ⟨-, hle, hexceeds, hpick, hn⟩
          · cases h
          · exact absurd hknown hmem
          · exact ⟨by omega, hexceeds, hpick, hn.imp_left Nat.succ.inj⟩
    | markSent batchId =>
      cases hop
      obtain ⟨hdurable, hcond, hsame⟩ := deleting_raised hraise hopen
      exact ⟨hdurable, fun h => Or.inr (hcond h), fun h => hsame (h.resolve_left n.succ_ne_zero)⟩
    | markFailed batchId error nextAttemptAt =>
      cases hop
      obtain ⟨hdurable, hcond, hsame⟩ := updating_raised hraise hopen
      exact ⟨hdurable, fun h => Or.inr (hcond h), fun h => hsame (h.resolve_left n.succ_ne_zero)⟩
    | nextReady _ _ => cases hop
    | reopen => cases hop

/-- ERRORS: when SQLite raises at a statement of `enqueue`, `mark_sent` or `mark_failed`, the file is
    unchanged; and whatever calls follow on the connection, the file is then as if the call had never
    been made, if and only if the statements before the error have left the table as it was. -/
theorem spool_atomic_on_error (libs : Libraries) (hop : op.call? textBytes = some (oldest, call))
    (hraise : call.runFor limits oldest n c = .ok (call', c')) (hopen : call'.isOpen = true) :
    c'.durable = c.durable ∧
    ((∀ rest : List (SpoolOp × Option ℕ), (follow libs limits textBytes rest c').durable =
        (follow libs limits textBytes rest c).durable) ↔
      LeavesTable limits oldest n c.working call) := by
  obtain ⟨hdurable, hcond, hsame⟩ := raised_leaves hop hraise hopen
  refine ⟨hdurable, fun h => hcond (sameRows_of_follow h), fun h rest => ?_⟩
  have hc : c' = c := by
    cases c; cases c'
    exact congrArg₂ Connection.mk hdurable (hsame h)
  rw [hc]

end

/-- The batch that the final flush builds from the samples of `calmBatch`. -/
def flushedBatch : TelemetryBatch :=
  { calmBatch with batchId := ⟨List.replicate 32 3, rfl⟩ }

/-- The connection after the commit of an `enqueue` on an empty file has raised. -/
def unfinished : Connection :=
  (SpoolCall.enqueue plainBytes 100 calmBatch).raisedAt ⟨1000, 1000000⟩ .first 2 (.connect .empty)

/-- The new row stays in the open transaction, so the calls that follow can tell. -/
theorem spool_atomic_on_error_commit :
    unfinished.durable = .empty ∧
    ¬ ∀ rest, (follow .canonical ⟨1000, 1000000⟩ plainBytes rest unfinished).durable =
      (follow .canonical ⟨1000, 1000000⟩ plainBytes rest (.connect .empty)).durable := by
  have hraise : (SpoolCall.enqueue plainBytes 100 calmBatch).runFor ⟨1000, 1000000⟩ .first 2
      (.connect .empty) = .ok (.committing 0, unfinished) := rfl
  have herror := spool_atomic_on_error .canonical
    (show (SpoolOp.enqueue .first 100 calmBatch).call? plainBytes = some _ from rfl) hraise rfl
  refine ⟨herror.1, fun h => ?_⟩
  rcases herror.2.mp h with hn | ⟨hknown, -⟩ | ⟨-, -, hexceeds, -⟩
  · cases hn
  · cases hknown
  · exact absurd hexceeds (by decide +kernel)

/-- The batch is spooled once more under a new id: the file then has its samples twice. -/
theorem flushed_twice :
    ((SpoolCall.enqueue plainBytes 100 calmBatch).runFor ⟨1000, 1000000⟩ .first 2
      (.connect .empty)).toOption.map (fun r => r.1.isOpen) = some true ∧
    unfinished.durable.rows.map SpoolRow.batchId = [] ∧
    (follow .canonical ⟨1000, 1000000⟩ plainBytes [(.enqueue .first 101 flushedBatch, none)]
      unfinished).durable.rows.map SpoolRow.batchId = [calmBatch.batchId.str, flushedBatch.batchId.str] ∧
    (follow .canonical ⟨1000, 1000000⟩ plainBytes [(.enqueue .first 101 flushedBatch, none)]
      (.connect .empty)).durable.rows.map SpoolRow.batchId = [flushedBatch.batchId.str] ∧
    calmBatch.samples = flushedBatch.samples := by
  decide +kernel

end FleetPulse
