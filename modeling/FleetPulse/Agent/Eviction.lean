import FleetPulse.Agent.SpoolQueue

/-! What the eviction loop of `enqueue` takes out, whatever the clock reads.

    The table knows the order in which batches came only through `created_at`, a reading of the wall
    clock. A run is therefore followed together with the numbers of the calls that enqueued: the rows
    stand in the order of these numbers, and an eviction is compared with it. -/

namespace FleetPulse
open Values BoundedQueue

/-! ### Evicting in order -/

/-- The last row of the oldest ones. -/
def Oldest.last : Oldest where
  pick rows := Oldest.first.pick rows.reverse
  pick_isSome rows h := Oldest.first.pick_isSome rows.reverse (by simpa using h)
  pick_mem rows row h := List.mem_reverse.mp (Oldest.first.pick_mem rows.reverse row h)
  pick_le rows row h r hr := Oldest.first.pick_le rows.reverse row h r (List.mem_reverse.mpr hr)

section
variable {limits : SpoolLimits} {row : SpoolRow} {rest : List SpoolRow}

/-- It is the row in front only if that is older than every other one. -/
theorem lt_of_last_pick (hrow : row ∉ rest) (h : Oldest.last.pick (row :: rest) = some row) :
    ∀ r ∈ rest, row.createdAt < r.createdAt := by
  intro r hr
  have hne : rest.reverse ≠ [] := by
    intro hnil
    rw [List.reverse_eq_nil_iff.mp hnil] at hr
    cases hr
  obtain ⟨best, hbest⟩ := Option.isSome_iff_exists.mp (Oldest.first.pick_isSome _ hne)
  have hmem : best ∈ rest := List.mem_reverse.mp (Oldest.first.pick_mem _ _ hbest)
  have hle := Oldest.first.pick_le _ _ hbest r (List.mem_reverse.mpr hr)
  have hlast : Oldest.last.pick (row :: rest) =
      some (if decide (row.createdAt < best.createdAt) then row else best) := by
    change Oldest.first.pick (row :: rest).reverse = _
    rw [List.reverse_cons]
    exact pyMax_concat _ hbest row
  rw [hlast] at h
  by_cases hlt : row.createdAt < best.createdAt
  · exact hlt.trans_le hle
  · rw [decide_eq_false hlt] at h
    exact absurd (Option.some.inj h ▸ hmem) hrow

/-- The deletion after `k` others is made and takes the batch that was enqueued first of those left. -/
def DeletesFirst (limits : SpoolLimits) (oldest : Oldest) (t : SpoolTable) (k : ℕ) : Prop :=
  (∀ j ≤ k, SpoolTable.exceeds limits ((deleteOldest oldest)^[j] t) = true) →
    ((deleteOldest oldest)^[k + 1] t).rows = ((deleteOldest oldest)^[k] t).rows.tail

/-- The condition is exact: it fails only where some choice among equally old rows deletes a batch
    while one that was enqueued earlier is still there. -/
theorem evictsInOrder_iff (limits : SpoolLimits) : ∀ (n : ℕ) (t : SpoolTable), t.rows.length = n →
    (EvictsInOrder limits t.rows ↔ ∀ oldest k, DeletesFirst limits oldest t k) := by
  intro n
  induction n with
  | zero =>
    intro t hlength
    have hnil := List.length_eq_zero_iff.mp hlength
    have hfits : SpoolTable.exceeds limits t = false := by
      simp [exceeds_eq, hnil, rowsFit, withinLimits]
    rw [hnil]
    refine iff_of_true trivial (fun oldest k h => ?_)
    have hexceeds := h 0 (Nat.zero_le k)
    rw [Function.iterate_zero_apply, hfits] at hexceeds
    cases hexceeds
  | succ n ih =>
    intro t hlength
    obtain ⟨row, rest, hrows⟩ := List.exists_cons_of_length_eq_add_one hlength
    rw [hrows] at hlength ⊢
    cases hfits : rowsFit limits (row :: rest) with
    | true =>
      refine iff_of_true (Or.inl hfits) (fun oldest k h => ?_)
      have hexceeds := h 0 (Nat.zero_le k)
      rw [Function.iterate_zero_apply, exceeds_eq, hrows, hfits] at hexceeds
      cases hexceeds
    | false =>
      have hexceeds : SpoolTable.exceeds limits t = true := by rw [exceeds_eq, hrows, hfits]; rfl
      constructor
      · intro h oldest k hall
        obtain ⟨hfront, hrest⟩ := h.resolve_left (by simp [hfits])
        have hleft := rows_deleteOldest oldest hrows hfront
        cases k with
        | zero => simp [hleft, hrows]
        | succ k =>
          have hnext := (ih (deleteOldest oldest t) (by rw [hleft]; simpa using hlength)).mp
            (by rw [hleft]; exact hrest) oldest k
          exact hnext (fun j hj => hall (j + 1) (Nat.succ_le_succ hj))
      · intro h
        have hleft : ∀ oldest, (deleteOldest oldest t).rows = rest := by
          intro oldest
          have hfirst := h oldest 0 (fun j hj => by rw [Nat.le_zero.mp hj]; exact hexceeds)
          rwa [Function.iterate_zero_apply, hrows] at hfirst
        refine Or.inr ⟨?_, ?_⟩
        · have hrow : row ∉ rest := by
            have hnodup := t.nodup
            rw [hrows, List.map_cons, List.nodup_cons] at hnodup
            exact fun hmem => hnodup.1 (List.mem_map_of_mem hmem)
          obtain ⟨before, picked, after, hsplit, hpick, hdelete⟩ :=
            deleteOldest_split .last (t := t) (by rw [hrows]; exact List.cons_ne_nil _ _)
          rw [hrows] at hsplit hpick
          rw [hleft] at hdelete
          cases before with
          | nil =>
            rw [← (List.cons.inj hsplit).1] at hpick
            exact lt_of_last_pick hrow hpick
          | cons r before =>
            refine absurd ?_ hrow
            rw [hdelete, (List.cons.inj hsplit).1]
            exact List.mem_cons_self
        · rw [← hleft .last]
          refine (ih _ (by rw [hleft]; simpa using hlength)).mpr (fun oldest k hall => ?_)
          have hsame : deleteOldest .last t = deleteOldest oldest t :=
            Table.ext ((hleft .last).trans (hleft oldest).symm)
          rw [hsame] at hall ⊢
          refine h oldest (k + 1) (fun j hj => ?_)
          cases j with
          | zero => exact hexceeds
          | succ j => exact hall j (Nat.le_of_succ_le_succ hj)

end

/-! ### Runs -/

/-- The spool, and which call put each batch into it. -/
structure TrackedSpool where
  connection : Connection
  enqueuedAt : String → ℕ
  calls : ℕ

/-- The batches in the spool. -/
def TrackedSpool.batchIds (s : TrackedSpool) : List String := s.connection.working.keys

def TrackedSpool.new : TrackedSpool := ⟨.connect .empty, fun _ => 0, 0⟩

/-- The batch that a call puts into the spool. -/
def SpoolOp.inserted (t : SpoolTable) : SpoolOp → List String
  | .enqueue _ _ batch => if batch.batchId.str ∈ t.keys then [] else [batch.batchId.str]
  | _ => []

section
variable (libs : Libraries) (textBytes : Payload → ℕ)

/-- One call, of a `BatchSpool` with its limits. -/
def TrackedSpool.call (s : TrackedSpool) (limits : SpoolLimits) (op : SpoolOp) : TrackedSpool where
  connection := (op.perform libs limits textBytes s.connection).2
  enqueuedAt := fun batchId =>
    if batchId ∈ op.inserted s.connection.working then s.calls else s.enqueuedAt batchId
  calls := s.calls + 1

/-- A run from a new file. -/
def TrackedSpool.run (ops : List (SpoolLimits × SpoolOp)) : TrackedSpool :=
  ops.foldl (fun s op => s.call libs textBytes op.1 op.2) .new

end

/-- The rows stand in the order in which their batches were enqueued. -/
structure TrackedSpool.InOrder (s : TrackedSpool) : Prop where
  committed : s.connection.durable = s.connection.working
  ordered : s.batchIds.Pairwise (fun a b => s.enqueuedAt a < s.enqueuedAt b)
  before : ∀ a ∈ s.batchIds, s.enqueuedAt a < s.calls

/-- What every call leaves: all is committed, and the batches of before are in their order. -/
structure KeepsOrder (op : SpoolOp) (c c' : Connection) : Prop where
  committed : c'.durable = c'.working
  sublist : c'.working.keys.Sublist (c.working.keys ++ op.inserted c.working)

section
variable {libs : Libraries} {textBytes : Payload → ℕ} {limits : SpoolLimits} {oldest : Oldest}
  {s : TrackedSpool} {c : Connection} {op : SpoolOp} {now : ℚ} {batch : TelemetryBatch}

theorem keys_insertOrIgnore (t : SpoolTable) : (t.insertOrIgnore (spoolRow textBytes now batch)).1.keys =
    t.keys ++ (SpoolOp.enqueue oldest now batch).inserted t := by
  rcases t.insertOrIgnore_cases (spoolRow textBytes now batch) with ⟨hmem, hrows, -⟩ | ⟨hmem, hrows, -⟩
  · rw [Table.keys, hrows, SpoolOp.inserted, if_pos (show batch.batchId.str ∈ t.keys from hmem),
      List.append_nil]
    rfl
  · rw [Table.keys, hrows, SpoolOp.inserted, if_neg (show batch.batchId.str ∉ t.keys from hmem),
      List.map_append]
    rfl

/-- The outcome of a call that ends. -/
theorem perform_enqueue (libs : Libraries) (textBytes : Payload → ℕ) (limits : SpoolLimits)
    (oldest : Oldest) (now : ℚ) (batch : TelemetryBatch) (c : Connection) :
    ∃ (t : SpoolTable) (dropped : ℕ),
      (SpoolOp.enqueue oldest now batch).perform libs limits textBytes c =
        (.dropped dropped, ⟨t, t⟩) ∧
      t.rows.Sublist (c.working.insertOrIgnore (spoolRow textBytes now batch)).1.rows ∧
      (EvictsInOrder limits (c.working.insertOrIgnore (spoolRow textBytes now batch)).1.rows →
        (t.rows, dropped) = evict (rowsFit limits)
          (c.working.insertOrIgnore (spoolRow textBytes now batch)).1.rows) := by
  obtain ⟨t, dropped, hsub, -, hrun, hordered⟩ :=
    inserting_runs limits oldest (spoolRow textBytes now batch) c
  exact ⟨t, dropped, perform_of_runFor hrun le_rfl, hsub, hordered⟩

theorem keys_updateFailed (batchId error : String) (nextAttemptAt : PyFloat) (t : SpoolTable) :
    (updateFailed batchId error nextAttemptAt t).keys = t.keys := by
  rw [Table.keys, Table.keys, rows_updateFailed, List.map_map]
  refine List.map_congr_left (fun r _ => ?_)
  simp only [Function.comp]
  split <;> rfl

/-- One call keeps the order. -/
theorem perform_keepsOrder (op : SpoolOp) (hc : c.durable = c.working) :
    KeepsOrder op c (op.perform libs limits textBytes c).2 := by
  have hless : ∀ {c' : Connection}, c'.durable = c'.working →
      c'.working.keys.Sublist c.working.keys → KeepsOrder op c c' :=
    fun hcommitted hsub => ⟨hcommitted, hsub.trans (List.sublist_append_left ..)⟩
  cases op with
  | enqueue oldest now batch =>
    obtain ⟨t, dropped, hperform, hsub, -⟩ := perform_enqueue libs textBytes limits oldest now batch c
    rw [hperform]
    refine ⟨rfl, ?_⟩
    rw [← @keys_insertOrIgnore textBytes]
    exact hsub.map SpoolRow.batchId
  | nextReady oldest now =>
    have hread : (SpoolOp.perform libs limits textBytes (.nextReady oldest now) c).2 = c := by
      simp only [SpoolOp.perform]; split <;> rfl
    rw [hread]
    exact hless hc (List.Sublist.refl _)
  | markSent batchId =>
    rw [SpoolOp.perform, perform_markSent]
    exact hless rfl (List.filter_sublist.map SpoolRow.batchId)
  | markFailed batchId error nextAttemptAt =>
    by_cases hnan : nextAttemptAt = .nan ∧ batchId.str ∈ c.working.keys
    · rw [SpoolOp.perform, perform_markFailed_nan error hnan]
      exact hless hc (List.Sublist.refl _)
    · rw [SpoolOp.perform, perform_markFailed error hnan]
      exact hless rfl (by rw [keys_updateFailed])
  | reopen =>
    rw [SpoolOp.perform, hc]
    exact hless rfl (List.Sublist.refl _)

theorem enqueuedAt_inserted {a : String} (h : a ∈ op.inserted s.connection.working) :
    (s.call libs textBytes limits op).enqueuedAt a = s.calls := if_pos h

theorem enqueuedAt_earlier {a : String} (h : a ∈ s.batchIds) :
    (s.call libs textBytes limits op).enqueuedAt a = s.enqueuedAt a := by
  refine if_neg (fun hin => ?_)
  cases op with
  | enqueue oldest now batch =>
    rw [SpoolOp.inserted] at hin
    split at hin
    · cases hin
    · next hnew => exact hnew (List.mem_singleton.mp hin ▸ h)
  | nextReady _ _ | markSent _ | markFailed _ _ _ | reopen => cases hin

/-- The batches of before and the new one, by the numbers that the call leaves. -/
theorem TrackedSpool.InOrder.inserted (h : s.InOrder) (limits : SpoolLimits) (op : SpoolOp) :
    (s.batchIds ++ op.inserted s.connection.working).Pairwise (fun a b =>
      (s.call libs textBytes limits op).enqueuedAt a <
        (s.call libs textBytes limits op).enqueuedAt b) := by
  refine List.pairwise_append.mpr ⟨?_, ?_, ?_⟩
  · refine h.ordered.imp_of_mem (fun ha hb hlt => ?_)
    rwa [enqueuedAt_earlier ha, enqueuedAt_earlier hb]
  · cases op with
    | enqueue oldest now batch =>
      rw [SpoolOp.inserted]
      split
      · exact List.Pairwise.nil
      · exact List.pairwise_singleton _ _
    | nextReady _ _ | markSent _ | markFailed _ _ _ | reopen => exact List.Pairwise.nil
  · intro a ha b hb
    rw [enqueuedAt_earlier ha, enqueuedAt_inserted hb]
    exact h.before a ha

theorem TrackedSpool.InOrder.call (h : s.InOrder) (limits : SpoolLimits) (op : SpoolOp) :
    (s.call libs textBytes limits op).InOrder := by
  obtain ⟨hcommitted, hsub⟩ := @perform_keepsOrder libs textBytes limits _ op
    h.committed
  refine ⟨hcommitted, (h.inserted limits op).sublist hsub, fun a ha => ?_⟩
  rcases List.mem_append.mp (hsub.subset ha) with hold | hin
  · rw [enqueuedAt_earlier hold]
    exact Nat.lt_succ_of_lt (h.before a hold)
  · rw [enqueuedAt_inserted hin]
    exact Nat.lt_succ_self s.calls

theorem TrackedSpool.run_inOrder (ops : List (SpoolLimits × SpoolOp)) :
    (TrackedSpool.run libs textBytes ops).InOrder := by
  have hruns : ∀ (ops : List (SpoolLimits × SpoolOp)) (s : TrackedSpool), s.InOrder →
      (ops.foldl (fun s op => s.call libs textBytes op.1 op.2) s).InOrder := by
    intro ops
    induction ops with
    | nil => exact fun _ h => h
    | cons op ops ih => exact fun s h => ih _ (h.call op.1 op.2)
  exact hruns ops .new ⟨rfl, List.Pairwise.nil, fun _ h => absurd h List.not_mem_nil⟩

/-- A row that fits alone is not among those that have to go. -/
theorem excess_append_le {row : SpoolRow} (hfits : rowsFit limits [row] = true)
    (rows : List SpoolRow) : excess (rowsFit limits) (rows ++ [row]) ≤ rows.length := by
  by_contra hlt
  have hdrop := not_fits_drop (rows ++ [row]) (not_le.mp hlt)
  rw [List.drop_left, hfits] at hdrop
  cases hdrop

/-- In order, what is not behind a place is before all that is. -/
theorem rel_of_notMem_drop {α : Type} {R : α → α → Prop} {l : List α} {k : ℕ} {a b : α}
    (h : l.Pairwise R) (ha : a ∈ l) (hgone : a ∉ l.drop k) (hb : b ∈ l.drop k) : R a b := by
  rw [← List.take_append_drop k l] at h ha
  exact (List.pairwise_append.mp h).2.2 a ((List.mem_append.mp ha).resolve_right hgone) b hb

end

/-- An `enqueue` left its batch in the spool, and every batch that it evicted had been enqueued before
    every batch that it kept. -/
structure SparesNewer (s s' : TrackedSpool) (batchId : String) : Prop where
  kept : batchId ∈ s'.batchIds
  inOrder : ∀ a ∈ s.batchIds ++ [batchId], a ∉ s'.batchIds → ∀ b ∈ s'.batchIds,
    s'.enqueuedAt a < s'.enqueuedAt b

/-- EVICTION: in any run, an `enqueue` of a new batch that fits alone returns, keeps it and evicts what
    was enqueued first, provided that, as long as a bound is exceeded, the batch enqueued first has an
    older `created_at` than every other. -/
theorem eviction_spares_newer (libs : Libraries) (textBytes : Payload → ℕ)
    (ops : List (SpoolLimits × SpoolOp)) (limits : SpoolLimits) (oldest : Oldest) (now : ℚ)
    (batch : TelemetryBatch) :
    let s := TrackedSpool.run libs textBytes ops
    let op := SpoolOp.enqueue oldest now batch
    batch.batchId.str ∉ s.batchIds → 1 ≤ limits.maxBatches →
    textBytes batch.modelDumpJson ≤ limits.maxBytes →
    EvictsInOrder limits (s.connection.working.rows ++ [spoolRow textBytes now batch]) →
    (∃ dropped, (op.perform libs limits textBytes s.connection).1 = .dropped dropped) ∧
      SparesNewer s (s.call libs textBytes limits op) batch.batchId.str := by
  intro s op hnew hbatches hbytes hevicts
  have hinserted : op.inserted s.connection.working = [batch.batchId.str] := if_neg hnew
  have hrows : (s.connection.working.insertOrIgnore (spoolRow textBytes now batch)).1.rows =
      s.connection.working.rows ++ [spoolRow textBytes now batch] := by
    rw [Table.insertOrIgnore_of_not_mem (show (spoolRow textBytes now batch).batchId ∉
      s.connection.working.keys from hnew)]
    rfl
  obtain ⟨t, dropped, hperform, -, hordered⟩ :=
    perform_enqueue libs textBytes limits oldest now batch s.connection
  rw [hrows] at hordered
  obtain ⟨ht, rfl⟩ := Prod.mk.inj (hordered hevicts)
  have hafter : (s.call libs textBytes limits op).batchIds = (s.batchIds ++ [batch.batchId.str]).drop
      (excess (rowsFit limits) (s.connection.working.rows ++ [spoolRow textBytes now batch])) := by
    have hworking : (s.call libs textBytes limits op).connection.working = t :=
      congrArg (fun r => r.2.working) hperform
    rw [TrackedSpool.batchIds, hworking, Table.keys, ht, List.map_drop, List.map_append]
    rfl
  have hfew : excess (rowsFit limits) (s.connection.working.rows ++ [spoolRow textBytes now batch]) ≤
      s.batchIds.length := by
    have hfits : rowsFit limits [spoolRow textBytes now batch] = true := by
      simp [rowsFit, withinLimits, spoolRow, hbatches, hbytes]
    exact (excess_append_le hfits _).trans_eq (List.length_map ..).symm
  refine ⟨⟨_, congrArg Prod.fst hperform⟩, ?_, ?_⟩
  · rw [hafter, List.drop_append_of_le_length hfew]
    exact List.mem_append_right _ (List.mem_singleton_self _)
  · intro a ha hgone b hb
    have hnumbers : (s.batchIds ++ op.inserted s.connection.working).Pairwise (fun a b =>
        (s.call libs textBytes limits op).enqueuedAt a <
          (s.call libs textBytes limits op).enqueuedAt b) :=
      (TrackedSpool.run_inOrder ops).inserted limits op
    rw [hinserted] at hnumbers
    rw [hafter] at hgone hb
    exact rel_of_notMem_drop (R := fun a b => (s.call libs textBytes limits op).enqueuedAt a <
      (s.call libs textBytes limits op).enqueuedAt b) hnumbers ha hgone hb

/-- Two batches in a spool for one, on a clock that has gone forward. -/
theorem eviction_spares_newer_forward :
    let s := TrackedSpool.run .canonical plainBytes [(⟨1, 1000000⟩, .enqueue .first 100 infiniteBatch)]
    SparesNewer s (s.call .canonical plainBytes ⟨1, 1000000⟩ (.enqueue .first 200 calmBatch))
      calmBatch.batchId.str := by
  exact (eviction_spares_newer .canonical plainBytes
    [(⟨1, 1000000⟩, .enqueue .first 100 infiniteBatch)] ⟨1, 1000000⟩ .first 200 calmBatch
    (by decide +kernel) le_rfl (by decide +kernel) (by decide +kernel)).2

/-- On a clock that has gone back, the new batch is the one that goes. -/
theorem eviction_takes_newer :
    let s := TrackedSpool.run .canonical plainBytes [(⟨1, 1000000⟩, .enqueue .first 200 infiniteBatch)]
    ¬ SparesNewer s (s.call .canonical plainBytes ⟨1, 1000000⟩ (.enqueue .first 100 calmBatch))
      calmBatch.batchId.str := by
  intro s h
  exact absurd h.kept (by decide +kernel)

end FleetPulse
