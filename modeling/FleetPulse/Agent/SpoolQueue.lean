import FleetPulse.Lib.BoundedQueue
import FleetPulse.Lib.Transducer
import FleetPulse.Agent.Spool

/-! The spool is a bounded first-in first-out queue with retries.

    As long as the clock rises from one `enqueue` to the next, the rows in the order of `created_at`
    are the entries of a `BoundedQueue` (`Corresponds`), and every call does to them what the queue's
    operation does. Only one thing can go wrong: a batch with a float that is not finite is stored
    and does not come out again, since `next_ready` cannot revalidate it. -/

namespace FleetPulse
open Values BoundedQueue

/-! ### Rows in order -/

/-- The rows stand in the order in which they were created. -/
def InOrderOfCreation (rows : List SpoolRow) : Prop :=
  rows.Pairwise (fun a b => a.createdAt < b.createdAt)

/-- Of rows in order, the first one is picked. -/
theorem Oldest.pick_of_ordered (oldest : Oldest) {rows : List SpoolRow}
    (h : InOrderOfCreation rows) : oldest.pick rows = rows.head? := by
  cases rows with
  | nil =>
    cases hp : oldest.pick [] with
    | none => rfl
    | some row => exact absurd (oldest.pick_mem _ _ hp) List.not_mem_nil
  | cons row rest =>
    obtain ⟨r, hr⟩ := Option.isSome_iff_exists.mp
      (oldest.pick_isSome (row :: rest) (List.cons_ne_nil _ _))
    rw [hr, List.head?_cons]
    rcases List.mem_cons.mp (oldest.pick_mem _ _ hr) with rfl | hmem
    · rfl
    · exact absurd (oldest.pick_le _ _ hr row (List.mem_cons_self ..))
        (not_le.mpr ((List.pairwise_cons.mp h).1 r hmem))

/-- One row goes, wherever it stands. -/
theorem deleteOldest_split (oldest : Oldest) {t : SpoolTable} (hne : t.rows ≠ []) :
    ∃ before row after, t.rows = before ++ row :: after ∧ oldest.pick t.rows = some row ∧
      (deleteOldest oldest t).rows = before ++ after := by
  obtain ⟨row, hpick⟩ := Option.isSome_iff_exists.mp (oldest.pick_isSome _ hne)
  obtain ⟨before, after, hrows⟩ := List.append_of_mem (oldest.pick_mem _ _ hpick)
  refine ⟨before, row, after, hrows, hpick, ?_⟩
  have hnodup := t.nodup
  rw [hrows, List.map_append, List.map_cons, List.nodup_middle, List.nodup_cons, List.mem_append,
    not_or] at hnodup
  have hkept : ∀ l : List SpoolRow, row.batchId ∉ l.map SpoolRow.batchId →
      l.filter (fun r => !decide (r.batchId = row.batchId)) = l := by
    intro l hl
    refine List.filter_eq_self.mpr (fun r hr => ?_)
    simpa using fun heq : r.batchId = row.batchId => hl (heq ▸ List.mem_map_of_mem hr)
  simp only [deleteOldest, hpick, Table.rows_deleteWhere]
  rw [hrows, List.filter_append, List.filter_cons_of_neg (by simp), hkept before hnodup.1.1,
    hkept after hnodup.1.2]

/-- A row in front that is older than every other one goes first. -/
theorem rows_deleteOldest (oldest : Oldest) {t : SpoolTable} {row : SpoolRow}
    {rest : List SpoolRow} (hrows : t.rows = row :: rest)
    (h : ∀ r ∈ rest, row.createdAt < r.createdAt) : (deleteOldest oldest t).rows = rest := by
  obtain ⟨before, picked, after, hsplit, hpick, hdelete⟩ :=
    deleteOldest_split oldest (t := t) (by rw [hrows]; exact List.cons_ne_nil _ _)
  have hle := oldest.pick_le _ _ hpick row (by rw [hrows]; exact List.mem_cons_self)
  rw [hrows] at hsplit
  cases before with
  | nil => rw [hdelete, (List.cons.inj hsplit).2]; rfl
  | cons r before =>
    have hmem : picked ∈ rest := by
      rw [(List.cons.inj hsplit).2]
      simp
    exact absurd hle (not_le.mpr (h picked hmem))

/-- Both bounds hold for payloads of these sizes. -/
def withinLimits (limits : SpoolLimits) (sizes : List ℕ) : Bool :=
  sizes.length ≤ limits.maxBatches && sizes.sum ≤ limits.maxBytes

/-- Both bounds hold for the rows. -/
def rowsFit (limits : SpoolLimits) (rows : List SpoolRow) : Bool :=
  withinLimits limits (rows.map SpoolRow.payloadBytes)

theorem exceeds_eq (limits : SpoolLimits) (t : SpoolTable) :
    SpoolTable.exceeds limits t = !rowsFit limits t.rows := by
  rw [Bool.eq_iff_iff, SpoolTable.exceeds, Bool.or_eq_true, decide_eq_true_eq, decide_eq_true_eq]
  simp [rowsFit, withinLimits, SpoolTable.count, SpoolTable.totalBytes]

/-- As long as a bound is exceeded, the row in front is older than every other one. -/
def EvictsInOrder (limits : SpoolLimits) : List SpoolRow → Prop
  | [] => True
  | row :: rest => rowsFit limits (row :: rest) = true ∨
      ((∀ r ∈ rest, row.createdAt < r.createdAt) ∧ EvictsInOrder limits rest)

instance EvictsInOrder.decidable (limits : SpoolLimits) :
    ∀ rows : List SpoolRow, Decidable (EvictsInOrder limits rows)
  | [] => isTrue trivial
  | row :: rest =>
    have := EvictsInOrder.decidable limits rest
    inferInstanceAs (Decidable (rowsFit limits (row :: rest) = true ∨
      ((∀ r ∈ rest, row.createdAt < r.createdAt) ∧ EvictsInOrder limits rest)))

theorem InOrderOfCreation.evictsInOrder (limits : SpoolLimits) : ∀ {rows : List SpoolRow},
    InOrderOfCreation rows → EvictsInOrder limits rows
  | [], _ => trivial
  | _ :: _, h => Or.inr ⟨(List.pairwise_cons.mp h).1,
      InOrderOfCreation.evictsInOrder limits (List.pairwise_cons.mp h).2⟩

/-! ### Calls -/

section
variable {limits : SpoolLimits} {oldest : Oldest}

theorem runFor_add : ∀ (m n : ℕ) (call : SpoolCall) (c : Connection),
    call.runFor limits oldest (m + n) c = (call.runFor limits oldest m c).bind
      (fun r => r.1.runFor limits oldest n r.2)
  | 0, n, call, c => by rw [Nat.zero_add]; rfl
  | m + 1, n, call, c => by
      rw [Nat.add_right_comm, SpoolCall.runFor, SpoolCall.runFor]
      cases call.step limits oldest c with
      | error e => rfl
      | ok r => exact runFor_add m n r.1 r.2

theorem runFor_done : ∀ (n dropped : ℕ) (c : Connection),
    (SpoolCall.done dropped).runFor limits oldest n c = .ok (.done dropped, c)
  | 0, _, _ => rfl
  | n + 1, dropped, c => runFor_done n dropped c

/-- A call that is done stays so. -/
theorem runFor_of_le {m n dropped : ℕ} {call : SpoolCall} {c c' : Connection}
    (h : call.runFor limits oldest m c = .ok (.done dropped, c')) (hle : m ≤ n) :
    call.runFor limits oldest n c = .ok (.done dropped, c') := by
  obtain ⟨k, rfl⟩ := Nat.exists_eq_add_of_le hle
  rw [runFor_add, h]
  exact runFor_done k dropped c'

theorem evicting_next {n dropped : ℕ} {c : Connection}
    (h : SpoolTable.exceeds limits c.working = true) :
    (SpoolCall.evicting dropped).runFor limits oldest (n + 1) c =
      (SpoolCall.evicting (dropped + (c.working.rows.length -
        (deleteOldest oldest c.working).rows.length))).runFor limits oldest n
          { c with working := deleteOldest oldest c.working } := by
  simp only [SpoolCall.runFor, SpoolCall.step, h, if_true, Except.bind]

/-- EVICTION ENDS: the loop removes rows until both bounds hold and goes on to commit; if the rows are
    evicted in order, it removes the shortest prefix that has to go. -/
theorem evicting_runs (limits : SpoolLimits) (oldest : Oldest) : ∀ (n dropped : ℕ) (c : Connection),
    c.working.rows.length = n → ∃ (k : ℕ) (t : SpoolTable), k ≤ n ∧
      t.rows.Sublist c.working.rows ∧ rowsFit limits t.rows = true ∧
      (SpoolCall.evicting dropped).runFor limits oldest (k + 1) c =
        .ok (.committing (dropped + k), { c with working := t }) ∧
      (EvictsInOrder limits c.working.rows → k = excess (rowsFit limits) c.working.rows ∧
        t.rows = c.working.rows.drop k) := by
  intro n
  induction n with
  | zero =>
    intro dropped c hlength
    have hnil := List.length_eq_zero_iff.mp hlength
    have hfits : rowsFit limits c.working.rows = true := by simp [hnil, rowsFit, withinLimits]
    refine ⟨0, c.working, le_rfl, List.Sublist.refl _, hfits, ?_, ?_⟩
    · simp [SpoolCall.runFor, SpoolCall.step, exceeds_eq, hfits, Except.bind]
    · exact fun _ => ⟨(excess_of_fits hfits).symm, rfl⟩
  | succ n ih =>
    intro dropped c hlength
    cases hfits : rowsFit limits c.working.rows with
    | true =>
      refine ⟨0, c.working, Nat.zero_le _, List.Sublist.refl _, hfits, ?_, ?_⟩
      · simp [SpoolCall.runFor, SpoolCall.step, exceeds_eq, hfits, Except.bind]
      · exact fun _ => ⟨(excess_of_fits hfits).symm, rfl⟩
    | false =>
      have hexceeds : SpoolTable.exceeds limits c.working = true := by rw [exceeds_eq, hfits]; rfl
      obtain ⟨before, row, after, hrows, -, hdelete⟩ := deleteOldest_split oldest
        (t := c.working) (List.ne_nil_of_length_eq_add_one hlength)
      have hshorter : (deleteOldest oldest c.working).rows.length = n := by
        rw [hrows, List.length_append, List.length_cons] at hlength
        rw [hdelete, List.length_append]
        omega
      obtain ⟨k, t, hk, hsub, hfit, hrun, hordered⟩ := ih (dropped + 1)
        { c with working := deleteOldest oldest c.working } hshorter
      have hsmaller : (before ++ after).Sublist c.working.rows := by
        rw [hrows]
        exact (List.sublist_cons_self row after).append_left before
      refine ⟨k + 1, t, by omega, hsub.trans (hdelete ▸ hsmaller), hfit, ?_, ?_⟩
      · rw [evicting_next hexceeds, hshorter, hlength, Nat.add_sub_cancel_left, hrun, Nat.add_assoc,
          Nat.add_comm 1]
      · intro h
        cases hfront : c.working.rows with
        | nil => rw [hfront] at hlength; cases hlength
        | cons first rest =>
          rw [hfront] at h hfits
          obtain ⟨hoverfull, hrest⟩ := h.resolve_left (by simp [hfits])
          have hleft := rows_deleteOldest oldest hfront hoverfull
          simp only [hleft] at hordered
          obtain ⟨rfl, hdrop⟩ := hordered hrest
          exact ⟨(excess_of_not_fits hfits).symm, hdrop⟩

/-- `enqueue`: the row goes in unless its id is there, rows go out until both bounds hold, and the file
    holds what is left; rows that are evicted in order go as the shortest prefix. -/
theorem inserting_runs (limits : SpoolLimits) (oldest : Oldest) (row : SpoolRow) (c : Connection) :
    ∃ (t : SpoolTable) (dropped : ℕ), t.rows.Sublist (c.working.insertOrIgnore row).1.rows ∧
      rowsFit limits t.rows = true ∧
      (SpoolCall.inserting row).runFor limits oldest (c.working.rows.length + 4) c =
        .ok (.done dropped, ⟨t, t⟩) ∧
      (EvictsInOrder limits (c.working.insertOrIgnore row).1.rows →
        (t.rows, dropped) = evict (rowsFit limits) (c.working.insertOrIgnore row).1.rows) := by
  obtain ⟨k, t, hk, hsub, hfits, hrun, hordered⟩ := evicting_runs limits oldest _ 0
    { c with working := (c.working.insertOrIgnore row).1 } rfl
  rw [Nat.zero_add] at hrun
  have hsteps : (SpoolCall.inserting row).runFor limits oldest (1 + ((k + 1) + 1)) c =
      .ok (.done k, ⟨t, t⟩) := by
    rw [runFor_add]
    change SpoolCall.runFor limits oldest _ (.evicting 0) _ = _
    rw [runFor_add, hrun]
    rfl
  have hlength : (c.working.insertOrIgnore row).1.rows.length ≤ c.working.rows.length + 1 := by
    rcases c.working.insertOrIgnore_cases row with ⟨-, hrows, -⟩ | ⟨-, hrows, -⟩ <;> rw [hrows]
    · exact Nat.le_succ _
    · simp
  refine ⟨t, k, hsub, hfits, runFor_of_le hsteps (by dsimp only at hk; omega), fun h => ?_⟩
  obtain ⟨rfl, hdrop⟩ := hordered h
  rw [evict, hdrop]

end

/-! ### Operations -/

/-- A call on the spool, with what its surroundings decide: the clock reading, and the choice among
    rows that are equally old. -/
inductive SpoolOp where
  | enqueue (oldest : Oldest) (now : ℚ) (batch : TelemetryBatch)
  | nextReady (oldest : Oldest) (now : PyFloat)
  | markSent (batchId : UUID)
  | markFailed (batchId : UUID) (error : String) (nextAttemptAt : PyFloat)
  | reopen

inductive SpoolAnswer where
  | returned
  | dropped (n : ℕ)
  | pending (p : Option PendingBatch)
  | raised (e : PyError)
  | running
  deriving DecidableEq

/-- The call, statement by statement; `running` if it has not come to its end by then. -/
def SpoolCall.perform (limits : SpoolLimits) (oldest : Oldest) (answer : ℕ → SpoolAnswer)
    (call : SpoolCall) (c : Connection) : SpoolAnswer × Connection :=
  match call.runFor limits oldest (c.working.rows.length + 4) c with
  | .ok (.done dropped, c') => (answer dropped, c')
  | .ok (_, c') => (.running, c')
  | .error e => (.raised e, c)

/-- What the class does. -/
def SpoolOp.perform (libs : Libraries) (limits : SpoolLimits) (textBytes : Payload → ℕ) :
    SpoolOp → Connection → SpoolAnswer × Connection
  | .enqueue oldest now batch, c =>
    (SpoolCall.enqueue textBytes now batch).perform limits oldest .dropped c
  | .nextReady oldest now, c =>
    match FleetPulse.nextReady libs oldest now c.working with
    | .ok p => (.pending p, c)
    | .error e => (.raised e, c)
  | .markSent batchId, c =>
    (SpoolCall.markSent batchId).perform limits .first (fun _ => .returned) c
  | .markFailed batchId error nextAttemptAt, c =>
    (SpoolCall.markFailed batchId error nextAttemptAt).perform limits .first (fun _ => .returned) c
  | .reopen, c => (.returned, .connect c.durable)

abbrev SpoolQueue := List (Entry TelemetryBatch PyFloat)

/-- Both bounds hold for the queue. -/
def queueFits (limits : SpoolLimits) (textBytes : Payload → ℕ) (q : SpoolQueue) : Bool :=
  withinLimits limits (q.map (fun e => textBytes e.value.modelDumpJson))

/-- What the class is for. -/
def SpoolOp.specify (limits : SpoolLimits) (textBytes : Payload → ℕ) :
    SpoolOp → SpoolQueue → SpoolAnswer × SpoolQueue
  | .enqueue _ _ batch, q =>
    (.dropped (push TelemetryBatch.batchId (queueFits limits textBytes) batch q).2,
      (push TelemetryBatch.batchId (queueFits limits textBytes) batch q).1)
  | .nextReady _ now, q => (.pending ((ready (fun t => t.le now) (.finite 0) q).map
      (fun e => ⟨e.value, e.attempts⟩)), q)
  | .markSent batchId, q => (.returned, remove TelemetryBatch.batchId batchId q)
  | .markFailed batchId _ nextAttemptAt, q =>
    (.returned, fail TelemetryBatch.batchId batchId nextAttemptAt q)
  | .reopen, q => (.returned, q)

/-- The columns that the class shows. -/
def SpoolRow.view (r : SpoolRow) : String × Payload × ℕ × ℕ × PyFloat :=
  (r.batchId, r.payload, r.payloadBytes, r.attempts, r.nextAttemptAt)

/-- The columns that an entry stands for. -/
def entryView (textBytes : Payload → ℕ) (e : Entry TelemetryBatch PyFloat) :
    String × Payload × ℕ × ℕ × PyFloat :=
  (e.value.batchId.str, e.value.modelDumpJson, textBytes e.value.modelDumpJson, e.attempts,
    e.dueAt (.finite 0))

/-- The table holds the entries of the queue, oldest first, and nothing is uncommitted. -/
structure Corresponds (limits : SpoolLimits) (textBytes : Payload → ℕ) (c : Connection)
    (q : SpoolQueue) : Prop where
  committed : c.durable = c.working
  ordered : InOrderOfCreation c.working.rows
  rows : c.working.rows.map SpoolRow.view = q.map (entryView textBytes)
  fits : rowsFit limits c.working.rows = true

/-! ### Refinement -/

section
variable {libs : Libraries} {limits : SpoolLimits} {textBytes : Payload → ℕ} {c : Connection}
  {q : SpoolQueue}

/-- Rows and entries that look the same are evicted alike. -/
theorem evict_corresponds (limits : SpoolLimits) {rows : List SpoolRow}
    (h : rows.map SpoolRow.view = q.map (entryView textBytes)) :
    (evict (rowsFit limits) rows).2 = (evict (queueFits limits textBytes) q).2 ∧
      (evict (rowsFit limits) rows).1.map SpoolRow.view =
        (evict (queueFits limits textBytes) q).1.map (entryView textBytes) := by
  have hsizes : rows.map SpoolRow.payloadBytes =
      q.map (fun e => textBytes e.value.modelDumpJson) := by
    have hmap := congrArg (List.map (fun v => v.2.2.1)) h
    rwa [List.map_map, List.map_map] at hmap
  have hexcess : excess (rowsFit limits) rows = excess (queueFits limits textBytes) q := by
    rw [show rowsFit limits = fun l => withinLimits limits (l.map SpoolRow.payloadBytes) from rfl,
      ← excess_map, hsizes, excess_map]
    rfl
  refine ⟨hexcess, ?_⟩
  rw [evict, evict, List.map_drop, List.map_drop, h, hexcess]

theorem Corresponds.mem_keys (h : Corresponds limits textBytes c q) (batchId : UUID) :
    batchId.str ∈ c.working.keys ↔ batchId ∈ keys TelemetryBatch.batchId q := by
  have hkeys := congrArg (List.map (fun v => v.1)) h.rows
  rw [List.map_map, List.map_map] at hkeys
  have hmap : c.working.keys = (keys TelemetryBatch.batchId q).map UUID.str := by
    rw [keys, List.map_map]
    exact hkeys
  rw [hmap, List.mem_map_of_injective UUID.str_injective]

/-- A call that ends within its steps. -/
theorem perform_of_runFor {oldest : Oldest} {answer : ℕ → SpoolAnswer} {call : SpoolCall}
    {n dropped : ℕ} {c' : Connection}
    (h : call.runFor limits oldest n c = .ok (.done dropped, c'))
    (hn : n ≤ c.working.rows.length + 4) :
    call.perform limits oldest answer c = (answer dropped, c') := by
  rw [SpoolCall.perform, runFor_of_le h hn]

theorem perform_markSent (limits : SpoolLimits) (batchId : UUID) (c : Connection) :
    (SpoolCall.markSent batchId).perform limits .first (fun _ => .returned) c =
      (.returned, ⟨c.working.deleteWhere (fun r => r.batchId = batchId.str),
        c.working.deleteWhere (fun r => r.batchId = batchId.str)⟩) :=
  have hrun : (SpoolCall.markSent batchId).runFor limits .first 2 c = .ok (.done 0, _) := rfl
  perform_of_runFor hrun (by omega)

theorem perform_markFailed {batchId : UUID} (error : String) {nextAttemptAt : PyFloat}
    (hnan : ¬ (nextAttemptAt = .nan ∧ batchId.str ∈ c.working.keys)) :
    (SpoolCall.markFailed batchId error nextAttemptAt).perform limits .first (fun _ => .returned) c =
      (.returned, ⟨updateFailed batchId.str error nextAttemptAt c.working,
        updateFailed batchId.str error nextAttemptAt c.working⟩) := by
  have hrun : (SpoolCall.markFailed batchId error nextAttemptAt).runFor limits .first 2 c =
      .ok (.done 0, ⟨updateFailed batchId.str error nextAttemptAt c.working,
        updateFailed batchId.str error nextAttemptAt c.working⟩) := by
    simp only [SpoolCall.runFor, SpoolCall.markFailed, SpoolCall.step, if_neg hnan, Except.bind]
  exact perform_of_runFor hrun (by omega)

/-- A time that is not a number is refused, and nothing happens. -/
theorem perform_markFailed_nan {batchId : UUID} (error : String) {nextAttemptAt : PyFloat}
    (hnan : nextAttemptAt = .nan ∧ batchId.str ∈ c.working.keys) :
    (SpoolCall.markFailed batchId error nextAttemptAt).perform limits .first (fun _ => .returned) c =
      (.raised .integrity, c) := by
  simp [SpoolCall.perform, SpoolCall.runFor, SpoolCall.markFailed, SpoolCall.step, hnan, Except.bind]

theorem Corresponds.enqueue (h : Corresponds limits textBytes c q) (oldest : Oldest) {now : ℚ}
    (batch : TelemetryBatch) (hclock : ∀ row ∈ c.working.rows, row.createdAt < now) :
    ∃ c', (SpoolCall.enqueue textBytes now batch).perform limits oldest .dropped c =
      (.dropped (push TelemetryBatch.batchId (queueFits limits textBytes) batch q).2, c') ∧
      Corresponds limits textBytes c'
        (push TelemetryBatch.batchId (queueFits limits textBytes) batch q).1 ∧
      ∀ row ∈ c'.working.rows, row.createdAt ≤ now := by
  have hkey := h.mem_keys batch.batchId
  rcases c.working.insertOrIgnore_cases (spoolRow textBytes now batch) with
    ⟨hmem, hrows, -⟩ | ⟨hmem, hrows, -⟩
  · obtain ⟨t, dropped, -, -, hrun, ht⟩ :=
      inserting_runs limits oldest (spoolRow textBytes now batch) c
    rw [hrows, evict, excess_of_fits h.fits] at ht
    obtain ⟨hkept, rfl⟩ := Prod.mk.inj (ht (h.ordered.evictsInOrder limits))
    obtain rfl : t = c.working := Table.ext hkept
    rw [push, if_pos (hkey.mp hmem)]
    exact ⟨_, perform_of_runFor hrun le_rfl, ⟨rfl, h.ordered, h.rows, h.fits⟩,
      fun row hrow => le_of_lt (hclock row hrow)⟩
  · have hordered : InOrderOfCreation (c.working.rows ++ [spoolRow textBytes now batch]) :=
      List.pairwise_append.mpr ⟨h.ordered, List.pairwise_singleton _ _, fun row hrow r hr => by
        rw [List.mem_singleton.mp hr]; exact hclock row hrow⟩
    have hview : (c.working.rows ++ [spoolRow textBytes now batch]).map SpoolRow.view =
        (q ++ [Entry.new batch]).map (entryView textBytes) := by
      rw [List.map_append, List.map_append, h.rows]
      rfl
    obtain ⟨hdropped, hrest⟩ := evict_corresponds limits hview
    obtain ⟨t, dropped, -, -, hrun, ht⟩ :=
      inserting_runs limits oldest (spoolRow textBytes now batch) c
    rw [hrows] at ht
    obtain ⟨hkept, rfl⟩ := Prod.mk.inj (ht (hordered.evictsInOrder limits))
    rw [push, if_neg (fun hin => hmem (hkey.mpr hin)), ← hdropped]
    refine ⟨_, perform_of_runFor hrun le_rfl, ⟨rfl, ?_, ?_, ?_⟩, fun row hrow => ?_⟩
    · rw [hkept]; exact hordered.sublist (List.drop_sublist _ _)
    · rw [hkept]; exact hrest
    · rw [hkept]; exact fits_drop_excess (by simp [rowsFit, withinLimits]) _
    · rw [hkept] at hrow
      rcases List.mem_append.mp (List.mem_of_mem_drop hrow) with hrow | hrow
      · exact le_of_lt (hclock row hrow)
      · rw [List.mem_singleton.mp hrow]; exact le_rfl

theorem Corresponds.markSent (h : Corresponds limits textBytes c q) (batchId : UUID) :
    ∃ c', (SpoolCall.markSent batchId).perform limits .first (fun _ => .returned) c =
      (.returned, c') ∧ c'.working.rows.Sublist c.working.rows ∧
      Corresponds limits textBytes c' (remove TelemetryBatch.batchId batchId q) := by
  have hsub : (c.working.rows.filter (fun r => !decide (r.batchId = batchId.str))).Sublist
      c.working.rows := List.filter_sublist
  refine ⟨_, perform_markSent limits batchId c, hsub, ⟨rfl, h.ordered.sublist hsub, ?_, ?_⟩⟩
  · have hfilter : (c.working.rows.filter (fun r => !decide (r.batchId = batchId.str))).map
        SpoolRow.view = (c.working.rows.map SpoolRow.view).filter
          (fun v => !decide (v.1 = batchId.str)) := by rw [List.filter_map]; rfl
    change List.map _ (List.filter _ _) = _
    rw [hfilter, h.rows, List.filter_map, remove]
    congr 1
    refine List.filter_congr (fun e _ => ?_)
    simp [entryView, UUID.str_injective.eq_iff]
  · have hfits := h.fits
    simp only [rowsFit, withinLimits, Bool.and_eq_true, decide_eq_true_eq] at hfits ⊢
    exact ⟨le_trans (hsub.map _).length_le hfits.1,
      le_trans (List.Sublist.sum_le_sum (hsub.map _) (fun _ _ => Nat.zero_le _)) hfits.2⟩

theorem Corresponds.markFailed (h : Corresponds limits textBytes c q) (batchId : UUID)
    (error : String) {nextAttemptAt : PyFloat}
    (hnan : ¬ (nextAttemptAt = .nan ∧ batchId.str ∈ c.working.keys)) :
    ∃ c', (SpoolCall.markFailed batchId error nextAttemptAt).perform limits .first
        (fun _ => .returned) c = (.returned, c') ∧
      c'.working.rows.map SpoolRow.createdAt = c.working.rows.map SpoolRow.createdAt ∧
      Corresponds limits textBytes c' (fail TelemetryBatch.batchId batchId nextAttemptAt q) := by
  have hsame {β : Type} (f : SpoolRow → β) (hf : ∀ r, f (r.fail error nextAttemptAt) = f r) :
      (updateFailed batchId.str error nextAttemptAt c.working).rows.map f =
        c.working.rows.map f := by
    rw [rows_updateFailed, List.map_map]
    exact List.map_congr_left (fun r _ => by simp only [Function.comp]; split <;> simp [hf])
  refine ⟨_, perform_markFailed error hnan, hsame _ (fun _ => rfl), ⟨rfl, ?_, ?_, ?_⟩⟩
  · rw [InOrderOfCreation, ← List.pairwise_map (f := SpoolRow.createdAt) (R := (· < ·)),
      hsame _ (fun _ => rfl), List.pairwise_map]
    exact h.ordered
  · have hmap : (updateFailed batchId.str error nextAttemptAt c.working).rows.map SpoolRow.view =
        (c.working.rows.map SpoolRow.view).map (fun v => if v.1 = batchId.str then
          (v.1, v.2.1, v.2.2.1, v.2.2.2.1 + 1, nextAttemptAt) else v) := by
      rw [rows_updateFailed, List.map_map, List.map_map]
      refine List.map_congr_left (fun r _ => ?_)
      by_cases hr : r.batchId = batchId.str <;> simp [SpoolRow.view, SpoolRow.fail, hr]
    rw [hmap, h.rows, fail, List.map_map, List.map_map]
    refine List.map_congr_left (fun e _ => ?_)
    by_cases he : e.value.batchId = batchId <;>
      simp [entryView, he, UUID.str_injective.eq_iff]
  · rw [rowsFit, hsame _ (fun _ => rfl)]
    exact h.fits

/-- The first entry that is due is the one that `next_ready` reads. -/
theorem Corresponds.nextReady (h : Corresponds limits textBytes c q) (libs : Libraries)
    (oldest : Oldest) (now : PyFloat) : FleetPulse.nextReady libs oldest now c.working =
      match ready (fun t => t.le now) (.finite 0) q with
      | none => .ok none
      | some e => if e.value.finite then .ok (some ⟨e.value, e.attempts⟩)
          else .error .validation := by
  have hpick : oldest.pick (c.working.rows.filter (fun r => r.nextAttemptAt.le now)) =
      c.working.rows.find? (fun r => r.nextAttemptAt.le now) := by
    rw [oldest.pick_of_ordered (h.ordered.sublist List.filter_sublist), List.head?_filter]
  have hfind : (c.working.rows.find? (fun r => r.nextAttemptAt.le now)).map SpoolRow.view =
      (ready (fun t => t.le now) (.finite 0) q).map (entryView textBytes) := by
    have hmap := congrArg (List.find? (fun v => v.2.2.2.2.le now)) h.rows
    rwa [List.find?_map, List.find?_map] at hmap
  rw [FleetPulse.nextReady, hpick]
  cases hready : ready (fun t => t.le now) (.finite 0) q with
  | none =>
    rw [hready, Option.map_none, Option.map_eq_none_iff] at hfind
    rw [hfind]
  | some e =>
    rw [hready, Option.map_some, Option.map_eq_some_iff] at hfind
    obtain ⟨row, hrow, hview⟩ := hfind
    have hpayload : row.payload = e.value.modelDumpJson := congrArg (fun v => v.2.1) hview
    have hattempts : row.attempts = e.attempts := congrArg (fun v => v.2.2.2.1) hview
    simp only [hrow, hpayload, TelemetryBatch.validate_modelDumpJson, hattempts]
    cases e.value.finite <;> rfl

/-- The clock readings of the calls that enqueue. -/
def clockReadings (ops : List SpoolOp) : List ℚ :=
  ops.filterMap (fun op => match op with
    | .enqueue _ now _ => some now
    | _ => none)

/-- Whatever `next_ready` answers can be read. -/
def SpoolAnswer.readable : SpoolAnswer → Prop
  | .pending (some p) => p.batch.finite = true
  | _ => True

/-- The spool and the queue before the calls that are still to come. -/
structure Simulates (libs : Libraries) (limits : SpoolLimits) (textBytes : Payload → ℕ)
    (ops : List SpoolOp) (c : Connection) (q : SpoolQueue) : Prop where
  corresponds : Corresponds limits textBytes c q
  later : ∀ now ∈ clockReadings ops, ∀ row ∈ c.working.rows, row.createdAt < now
  rising : (clockReadings ops).Pairwise (· < ·)
  succeeds : .raised .integrity ∉ (Transducer.run (SpoolOp.perform libs limits textBytes) ops c).1

theorem Simulates.step {op : SpoolOp} {ops : List SpoolOp}
    (h : Simulates libs limits textBytes (op :: ops) c q) :
    Simulates libs limits textBytes ops (op.perform libs limits textBytes c).2
        (op.specify limits textBytes q).2 ∧
      ((op.perform libs limits textBytes c).1 = (op.specify limits textBytes q).1 ↔
        (op.specify limits textBytes q).1.readable) := by
  obtain ⟨hc, hlater, hrising, hsucceeds⟩ := h
  have hsucceeds' := fun hmem => hsucceeds (List.mem_cons_of_mem _ hmem)
  cases op with
  | enqueue oldest now batch =>
    obtain ⟨hfirst, hrest⟩ := List.pairwise_cons.mp hrising
    obtain ⟨c', hperform, hc', hle⟩ := hc.enqueue oldest batch (hlater now (List.mem_cons_self ..))
    simp only [SpoolOp.perform, SpoolOp.specify, hperform] at hsucceeds' ⊢
    refine ⟨⟨hc', fun t ht row hrow => lt_of_le_of_lt (hle row hrow) (hfirst t ht), hrest,
      hsucceeds'⟩, by simp [SpoolAnswer.readable]⟩
  | nextReady oldest now =>
    have hnext := hc.nextReady libs oldest now
    have hsame : (SpoolOp.perform libs limits textBytes (.nextReady oldest now) c).2 = c := by
      simp only [SpoolOp.perform]; split <;> rfl
    refine ⟨⟨?_, ?_, hrising, hsucceeds'⟩, ?_⟩
    · rw [hsame]; exact hc
    · rw [hsame]; exact hlater
    · simp only [SpoolOp.perform, SpoolOp.specify, hnext]
      cases ready (fun t => t.le now) (.finite 0) q with
      | none => simp [SpoolAnswer.readable]
      | some e => cases hf : e.value.finite <;> simp [SpoolAnswer.readable, hf]
  | markSent batchId =>
    obtain ⟨c', hperform, hsub, hc'⟩ := hc.markSent batchId
    simp only [SpoolOp.perform, SpoolOp.specify, hperform] at hsucceeds' ⊢
    exact ⟨⟨hc', fun t ht row hrow => hlater t ht row (hsub.subset hrow), hrising, hsucceeds'⟩,
      by simp [SpoolAnswer.readable]⟩
  | markFailed batchId error nextAttemptAt =>
    by_cases hnan : nextAttemptAt = .nan ∧ batchId.str ∈ c.working.keys
    · refine absurd (List.mem_cons.mpr (Or.inl ?_)) hsucceeds
      rw [SpoolOp.perform, perform_markFailed_nan error hnan]
    obtain ⟨c', hperform, hcreated, hc'⟩ := hc.markFailed batchId error hnan
    simp only [SpoolOp.perform, SpoolOp.specify, hperform] at hsucceeds' ⊢
    refine ⟨⟨hc', fun t ht row hrow => ?_, hrising, hsucceeds'⟩, by simp [SpoolAnswer.readable]⟩
    obtain ⟨r, hr, hsame⟩ := List.mem_map.mp (hcreated ▸ List.mem_map_of_mem hrow :
      row.createdAt ∈ c.working.rows.map SpoolRow.createdAt)
    rw [← hsame]
    exact hlater t ht r hr
  | reopen =>
    refine ⟨⟨⟨rfl, ?_, ?_, ?_⟩, ?_, hrising, hsucceeds'⟩, by
      simp [SpoolOp.perform, SpoolOp.specify, SpoolAnswer.readable]⟩ <;>
      simp only [SpoolOp.perform, SpoolOp.specify, Connection.connect, hc.committed]
    · exact hc.ordered
    · exact hc.rows
    · exact hc.fits
    · exact hlater

/-- REFINEMENT: over any calls on a new file, with the clock rising from one `enqueue` to the next and
    no statement failing, the rows are the entries of the queue; and the answers are those of the
    queue exactly if every entry that `next_ready` has to return holds finite numbers only. -/
theorem spool_refines_queue (libs : Libraries) (limits : SpoolLimits) (textBytes : Payload → ℕ)
    (ops : List SpoolOp) (hrising : (clockReadings ops).Pairwise (· < ·))
    (hsucceeds : .raised .integrity ∉
      (Transducer.run (SpoolOp.perform libs limits textBytes) ops (.connect .empty)).1) :
    Corresponds limits textBytes
      (Transducer.run (SpoolOp.perform libs limits textBytes) ops (.connect .empty)).2
      (Transducer.run (SpoolOp.specify limits textBytes) ops []).2 ∧
    ((Transducer.run (SpoolOp.perform libs limits textBytes) ops (.connect .empty)).1 =
        (Transducer.run (SpoolOp.specify limits textBytes) ops []).1 ↔
      ∀ batch attempts, .pending (some ⟨batch, attempts⟩) ∈
        (Transducer.run (SpoolOp.specify limits textBytes) ops []).1 → batch.finite = true) := by
  have hstart : Simulates libs limits textBytes ops (.connect .empty) [] :=
    ⟨⟨rfl, List.Pairwise.nil, rfl, by simp [rowsFit, withinLimits, Connection.connect]⟩,
      fun _ _ _ h => (List.not_mem_nil h).elim, hrising, hsucceeds⟩
  obtain ⟨hend, hanswers⟩ := Transducer.run_simulates (fun _ _ _ _ h => h.step) hstart
  refine ⟨hend.corresponds, hanswers.trans ⟨fun h batch attempts hmem => h _ hmem, ?_⟩⟩
  intro h answer hmem
  match answer with
  | .pending (some ⟨batch, attempts⟩) => exact h batch attempts hmem
  | .pending none | .returned | .dropped _ | .raised _ | .running => trivial

end

/-! ### Two batches -/

def spooledSample (load : PyFloat) : TelemetrySample :=
  ⟨⟨2026, 7, 17, 9, 0, 10, 0, some ⟨false, 0, 0⟩, isDate_sample⟩, .finite 20, load, .finite 1,
    .finite 1, ⟨16, 8, 8, .finite 50⟩, [⟨"/", 100, 40, 60, .finite 40⟩],
    ⟨0, 0, 0, 0, 0, 0, 0, 0, 0, 0, 0, 0⟩, 1, []⟩

def calmBatch : TelemetryBatch :=
  ⟨⟨List.replicate 32 1, rfl⟩, "node-1", "host-1", [spooledSample (.finite 1)], by decide +kernel⟩

/-- A load average that is not finite is valid. -/
def infiniteBatch : TelemetryBatch :=
  ⟨⟨List.replicate 32 2, rfl⟩, "node-1", "host-1", [spooledSample .posInf], by decide +kernel⟩

mutual
/-- The length of the compact text of a document with whole numbers and plain strings. -/
def plainBytes : Payload → ℕ
  | .null => 4
  | .bool b => if b then 4 else 5
  | .num (.int n) => (toString n).length
  | .num (.float (.finite q)) => (toString q.num).length + 2
  | .num (.float _) => 4
  | .str s => s.utf8ByteSize + 2
  | .arr xs => 2 + plainBytesItems xs
  | .obj kvs => 2 + plainBytesMembers kvs
def plainBytesItems : List Payload → ℕ
  | [] => 0
  | [x] => plainBytes x
  | x :: y :: xs => plainBytes x + 1 + plainBytesItems (y :: xs)
def plainBytesMembers : List (String × Payload) → ℕ
  | [] => 0
  | [(k, x)] => k.utf8ByteSize + 3 + plainBytes x
  | (k, x) :: kv :: kvs => k.utf8ByteSize + 4 + plainBytes x + plainBytesMembers (kv :: kvs)
end

/-- Two batches in a spool for one, the second of which fails once and is read after a restart. -/
def replayOps : List SpoolOp :=
  [.enqueue .first 100 infiniteBatch, .enqueue .first 110 calmBatch, .nextReady .first (.finite 111),
    .markFailed calmBatch.batchId "ConnectError" (.finite 115), .reopen,
    .nextReady .first (.finite 114), .nextReady .first (.finite 116), .markSent calmBatch.batchId]

theorem spool_refines_queue_replay :
    (Transducer.run (SpoolOp.perform .canonical ⟨1, 1000000⟩ plainBytes) replayOps
      (.connect .empty)).1 = [.dropped 0, .dropped 1, .pending (some ⟨calmBatch, 0⟩), .returned,
        .returned, .pending none, .pending (some ⟨calmBatch, 1⟩), .returned] ∧
    Corresponds ⟨1, 1000000⟩ plainBytes
      (Transducer.run (SpoolOp.perform .canonical ⟨1, 1000000⟩ plainBytes) replayOps
        (.connect .empty)).2
      (Transducer.run (SpoolOp.specify ⟨1, 1000000⟩ plainBytes) replayOps []).2 := by
  have hanswers : (Transducer.run (SpoolOp.perform .canonical ⟨1, 1000000⟩ plainBytes) replayOps
      (.connect .empty)).1 = [.dropped 0, .dropped 1, .pending (some ⟨calmBatch, 0⟩), .returned,
        .returned, .pending none, .pending (some ⟨calmBatch, 1⟩), .returned] := by decide +kernel
  refine ⟨hanswers, (spool_refines_queue .canonical ⟨1, 1000000⟩ plainBytes replayOps ?_ ?_).1⟩
  · simp [clockReadings, replayOps]; norm_num
  · rw [hanswers]; decide

/-- A batch with an infinite load average goes into the spool and does not come out: `next_ready`
    raises where the queue returns it. -/
theorem infinite_batch_not_returned : ¬ ∀ ops : List SpoolOp,
    (clockReadings ops).Pairwise (· < ·) →
    .raised .integrity ∉ (Transducer.run (SpoolOp.perform .canonical ⟨1000, 1000000⟩ plainBytes) ops
      (.connect .empty)).1 →
    (Transducer.run (SpoolOp.perform .canonical ⟨1000, 1000000⟩ plainBytes) ops
      (.connect .empty)).1 = (Transducer.run (SpoolOp.specify ⟨1000, 1000000⟩ plainBytes) ops []).1 := by
  intro h
  have hperform : (Transducer.run (SpoolOp.perform .canonical ⟨1000, 1000000⟩ plainBytes)
      [.enqueue .first 100 infiniteBatch, .nextReady .first (.finite 101)] (.connect .empty)).1 =
        [.dropped 0, .raised .validation] := by decide +kernel
  have hspecify : (Transducer.run (SpoolOp.specify ⟨1000, 1000000⟩ plainBytes)
      [.enqueue .first 100 infiniteBatch, .nextReady .first (.finite 101)] []).1 =
        [.dropped 0, .pending (some ⟨infiniteBatch, 0⟩)] := by decide +kernel
  have hsame := h [.enqueue .first 100 infiniteBatch, .nextReady .first (.finite 101)]
    (List.pairwise_singleton _ _) (by rw [hperform]; decide)
  rw [hperform, hspecify] at hsame
  cases hsame

/-! ### One batch -/

section
variable {libs : Libraries} {limits : SpoolLimits} {textBytes : Payload → ℕ}

/-- What `next_ready` answers when a batch has been put into an empty spool. -/
def answerAfterEnqueue (libs : Libraries) (limits : SpoolLimits) (textBytes : Payload → ℕ)
    (oldest oldest' : Oldest) (now : ℚ) (readAt : PyFloat) (batch : TelemetryBatch) : SpoolAnswer :=
  ((SpoolOp.nextReady oldest' readAt).perform libs limits textBytes
    ((SpoolOp.enqueue oldest now batch).perform libs limits textBytes (.connect .empty)).2).1

/-- LOSSLESS: a batch that the empty spool can hold comes back if and only if its floats are finite and
    the clock has reached the epoch, from which it is due. -/
theorem spooled_batch_returned (oldest oldest' : Oldest) (now : ℚ) (readAt : PyFloat)
    (batch : TelemetryBatch) (hbatches : 1 ≤ limits.maxBatches)
    (hbytes : textBytes batch.modelDumpJson ≤ limits.maxBytes) :
    answerAfterEnqueue libs limits textBytes oldest oldest' now readAt batch =
        .pending (some ⟨batch, 0⟩) ↔
      batch.finite = true ∧ PyFloat.le (.finite 0) readAt = true := by
  have hempty : Corresponds limits textBytes (.connect .empty) [] :=
    ⟨rfl, List.Pairwise.nil, rfl, by simp [rowsFit, withinLimits, Connection.connect]⟩
  have hfits : queueFits limits textBytes [Entry.new batch] = true := by
    simp [queueFits, withinLimits, Entry.new, hbatches, hbytes]
  have hpush : push TelemetryBatch.batchId (queueFits limits textBytes) batch [] =
      ([Entry.new batch], 0) := by
    simp [push, keys, evict, excess_of_fits hfits]
  obtain ⟨c, hperform, hc, -⟩ := @Corresponds.enqueue _ _ _ _ hempty oldest now batch
    (fun row hrow => absurd hrow List.not_mem_nil)
  rw [hpush] at hc
  rw [answerAfterEnqueue, SpoolOp.perform, hperform, SpoolOp.perform, hc.nextReady]
  have hready : ready (fun t : PyFloat => t.le readAt) (.finite 0) [Entry.new batch] =
      if PyFloat.le (.finite 0) readAt then some (Entry.new batch) else none :=
    List.find?_singleton ..
  rw [hready]
  by_cases hdue : PyFloat.le (.finite 0) readAt = true
  · cases hfinite : batch.finite <;> simp [hdue, hfinite, Entry.new, Entry.attempts]
  · simp [hdue]

/-- A batch with finite floats comes back. -/
theorem spooled_batch_returned_calm : answerAfterEnqueue .canonical ⟨1, 1000000⟩ plainBytes .first
    .first 100 (.finite 101) calmBatch = .pending (some ⟨calmBatch, 0⟩) :=
  (spooled_batch_returned .first .first 100 (.finite 101) calmBatch le_rfl (by decide +kernel)).mpr
    (by decide +kernel)

/-- With an infinite load average `next_ready` raises. -/
theorem spooled_batch_not_returned : answerAfterEnqueue .canonical ⟨1, 1000000⟩ plainBytes .first
    .first 100 (.finite 101) infiniteBatch ≠ .pending (some ⟨infiniteBatch, 0⟩) := by
  have hraises : answerAfterEnqueue .canonical ⟨1, 1000000⟩ plainBytes .first .first 100
      (.finite 101) infiniteBatch = .raised .validation := by decide +kernel
  rw [hraises]
  exact nofun

end

end FleetPulse
