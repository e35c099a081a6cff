import FleetPulse.Pipeline.Scheduler

/-! `publication_attempts`: the relay counts an attempt in the transaction that makes it.

    One poll of the relay is a function of what its surroundings decide: the order of equally old
    rows, the rows that are locked, and what fails. An `xadd` that was issued stays in the stream,
    whatever becomes of the transaction; the counter goes with the transaction. -/

namespace FleetPulse
open Values

/-- What the surroundings decide about one call of `publish_once`. -/
structure RelayPoll where
  /-- The rows of the query, before `LIMIT` and `SKIP LOCKED`. -/
  order : List OutboxEventRecord
  isLocked : UUID → Bool
  xaddRaises : UUID → Bool
  commitRaises : Bool
  now : Instant

/-- The rows that the loop goes through. -/
def RelayPoll.rows (p : RelayPoll) : List OutboxEventRecord :=
  (p.order.filter (fun event => !p.isLocked event.eventId)).take publishLimit

/-- The loop of `publish_once`: the rows for which an `xadd` is issued and, if none of them raises,
    the changed rows. -/
def publishRows (p : RelayPoll) :
    List OutboxEventRecord → List UUID × Option (List OutboxEventRecord)
  | [] => ([], some [])
  | event :: rows =>
    if p.xaddRaises event.eventId then ([event.eventId], none)
    else (event.eventId :: (publishRows p rows).1,
      (publishRows p rows).2.map (markPublished p.now event :: ·))

/-- The rows for which the call issues an `xadd`. -/
def RelayPoll.issued (p : RelayPoll) : List UUID := (publishRows p p.rows).1

/-- `publish_once(settings, redis)`: the database after the call. -/
def publishOnce (p : RelayPoll) (db : Database) : Database :=
  match (publishRows p p.rows).2 with
  | some events =>
    if p.commitRaises then db
    else { db with outboxEvents := commitPublished events db.outboxEvents }
  | none => db

/-- No `xadd` of the call and not its commit fails. -/
def RelayPoll.succeeds (p : RelayPoll) : Bool :=
  p.rows.all (fun event => !p.xaddRaises event.eventId) && !p.commitRaises

/-- The runs of the relay, with the polls so far; between two polls the API takes batches in. -/
inductive RelayRun : List RelayPoll → Database → Prop
  | start : RelayRun [] .empty
  | ingest {polls db db' now createdAt eventId correlationId batch r} : RelayRun polls db →
      ingestBatch now createdAt eventId correlationId batch db = .ok (db', r) → RelayRun polls db'
  | poll {polls db p} : RelayRun polls db → OrderedByCreation (unpublished db) p.order →
      RelayRun (polls ++ [p]) (publishOnce p db)

/-- How many of the calls issued an `xadd` for the row. -/
def issuedFor (eventId : UUID) (polls : List RelayPoll) : ℕ :=
  polls.countP (fun p => decide (eventId ∈ p.issued))

/-- How many of these calls were committed. -/
def committedFor (eventId : UUID) (polls : List RelayPoll) : ℕ :=
  polls.countP (fun p => decide (eventId ∈ p.issued) && p.succeeds)

section
variable {p : RelayPoll} {polls : List RelayPoll} {db : Database}

theorem publishRows_of_all : ∀ {rows : List OutboxEventRecord},
    rows.all (fun event => !p.xaddRaises event.eventId) = true →
    publishRows p rows = (rows.map OutboxEventRecord.eventId, some (rows.map (markPublished p.now)))
  | [], _ => rfl
  | event :: rows, h => by
      simp only [List.all_cons, Bool.and_eq_true, Bool.not_eq_true'] at h
      rw [publishRows, if_neg (by simp [h.1]), publishRows_of_all h.2]
      rfl

theorem publishRows_of_not_all : ∀ {rows : List OutboxEventRecord},
    rows.all (fun event => !p.xaddRaises event.eventId) = false → (publishRows p rows).2 = none
  | [], h => by cases h
  | event :: rows, h => by
      rw [publishRows]
      by_cases hraises : p.xaddRaises event.eventId = true
      · rw [if_pos hraises]
      · rw [if_neg hraises]
        simp only [List.all_cons, hraises, Bool.not_false, Bool.true_and] at h
        rw [publishRows_of_not_all h]
        rfl

/-- The first row of a loop has its `xadd` issued. -/
theorem issued_eq_nil : p.issued = [] ↔ p.rows = [] := by
  rw [RelayPoll.issued]
  cases p.rows with
  | nil => exact iff_of_true rfl rfl
  | cons event rows =>
    refine iff_of_false ?_ (List.cons_ne_nil _ _)
    rw [publishRows]
    split <;> exact List.cons_ne_nil _ _

theorem issued_subset : ∀ {rows : List OutboxEventRecord},
    (publishRows p rows).1 ⊆ rows.map OutboxEventRecord.eventId
  | [] => List.Subset.refl _
  | event :: rows => by
      rw [publishRows]
      split
      · simp
      · exact List.cons_subset_cons _ issued_subset

theorem publishOnce_of_succeeds (h : p.succeeds = true) :
    publishOnce p db = { db with
      outboxEvents := commitPublished (p.rows.map (markPublished p.now)) db.outboxEvents } := by
  simp only [RelayPoll.succeeds, Bool.and_eq_true, Bool.not_eq_true'] at h
  rw [publishOnce, publishRows_of_all h.1]
  simp [h.2]

theorem publishOnce_of_fails (h : p.succeeds = false) : publishOnce p db = db := by
  rw [publishOnce]
  cases hall : p.rows.all (fun event => !p.xaddRaises event.eventId) with
  | false => rw [publishRows_of_not_all hall]
  | true =>
    rw [publishRows_of_all hall]
    have hcommit : p.commitRaises = true := by simpa [RelayPoll.succeeds, hall] using h
    simp [hcommit]

/-- A row after the commit carries the number of attempts of the changed row of its id, if there is
    one, and its own otherwise. -/
theorem attempts_commitPublished {r' : OutboxEventRecord} : ∀ {events : List OutboxEventRecord}
    {outbox : Table OutboxEventRecord.eventId}, (events.map OutboxEventRecord.eventId).Nodup →
    r' ∈ (commitPublished events outbox).rows →
    (∃ event ∈ events, event.eventId = r'.eventId ∧
      r'.publicationAttempts = event.publicationAttempts) ∨
    (r'.eventId ∉ events.map OutboxEventRecord.eventId ∧ r' ∈ outbox.rows)
  | [], _, _, hr => Or.inr ⟨List.not_mem_nil, hr⟩
  | event :: events, outbox, hnodup, hr => by
      rw [List.map_cons, List.nodup_cons] at hnodup
      rw [commitPublished, List.foldl_cons] at hr
      rcases attempts_commitPublished hnodup.2 hr with ⟨e, he, hid, hattempts⟩ | ⟨hnot, hr⟩
      · exact Or.inl ⟨e, List.mem_cons_of_mem _ he, hid, hattempts⟩
      · by_cases hid : r'.eventId = event.eventId
        · refine Or.inl ⟨event, List.mem_cons_self, hid.symm, ?_⟩
          rw [updatePublished, Table.rows_updateWhere] at hr
          obtain ⟨r, -, rfl⟩ := List.mem_map.mp hr
          by_cases hsame : r.eventId = event.eventId
          · simp [hsame]
          · simp [hsame] at hid
        · refine Or.inr ⟨?_, (mem_updatePublished_of_ne hid).mp hr⟩
          rw [List.map_cons, List.mem_cons, not_or]
          exact ⟨hid, hnot⟩

/-- The counters and the polls agree on the calls that were committed. -/
structure CountsCommitted (polls : List RelayPoll) (db : Database) : Prop where
  attempts : ∀ row ∈ db.outboxEvents.rows,
    row.publicationAttempts = committedFor row.eventId polls
  known : ∀ p ∈ polls, p.issued ⊆ db.outboxEvents.keys

theorem rows_subset (hordered : OrderedByCreation (unpublished db) p.order) :
    p.rows ⊆ db.outboxEvents.rows := fun _ hrow =>
  (mem_unpublished.mp (hordered.1.subset (List.mem_of_mem_filter (List.mem_of_mem_take hrow)))).1

theorem rows_nodup (hordered : OrderedByCreation (unpublished db) p.order) :
    (p.rows.map OutboxEventRecord.eventId).Nodup := by
  have hsub : p.rows.Sublist p.order := (List.take_sublist ..).trans List.filter_sublist
  have horder : (p.order.map OutboxEventRecord.eventId).Nodup :=
    ((hordered.1.map OutboxEventRecord.eventId).nodup_iff).mpr
      (db.outboxEvents.nodup.sublist (List.filter_sublist.map _))
  exact horder.sublist (hsub.map _)

theorem committedFor_concat (eventId : UUID) (polls : List RelayPoll) (p : RelayPoll) :
    committedFor eventId (polls ++ [p]) = committedFor eventId polls +
      if eventId ∈ p.issued ∧ p.succeeds = true then 1 else 0 := by
  simp [committedFor, List.countP_append, List.countP_singleton]

/-- A poll keeps the agreement. -/
theorem CountsCommitted.poll (h : CountsCommitted polls db)
    (hordered : OrderedByCreation (unpublished db) p.order) :
    CountsCommitted (polls ++ [p]) (publishOnce p db) := by
  have hknown : ∀ q ∈ polls ++ [p], q.issued ⊆ db.outboxEvents.keys := by
    intro q hq
    rcases List.mem_append.mp hq with hq | hq
    · exact h.known q hq
    · rw [List.mem_singleton.mp hq]
      exact List.Subset.trans issued_subset (List.map_subset _ (rows_subset hordered))
  cases hsucceeds : p.succeeds with
  | false =>
    rw [publishOnce_of_fails hsucceeds]
    refine ⟨fun row hrow => ?_, hknown⟩
    rw [h.attempts row hrow, committedFor_concat]
    simp [hsucceeds]
  | true =>
    rw [publishOnce_of_succeeds hsucceeds]
    have hissued : p.issued = p.rows.map OutboxEventRecord.eventId := by
      simp only [RelayPoll.succeeds, Bool.and_eq_true] at hsucceeds
      rw [RelayPoll.issued, publishRows_of_all hsucceeds.1]
    have hmarked : (p.rows.map (markPublished p.now)).map OutboxEventRecord.eventId =
        p.rows.map OutboxEventRecord.eventId := by
      rw [List.map_map]
      rfl
    refine ⟨fun row hrow => ?_, fun q hq => ?_⟩
    · rw [committedFor_concat]
      rcases attempts_commitPublished (by rw [hmarked]; exact rows_nodup hordered) hrow with
        ⟨event, hevent, hid, hattempts⟩ | ⟨hnot, hrow⟩
      · obtain ⟨r, hr, rfl⟩ := List.mem_map.mp hevent
        have hr' : r.eventId = row.eventId := hid
        have hmem : row.eventId ∈ p.issued := by
          rw [hissued, ← hr']
          exact List.mem_map_of_mem hr
        rw [hattempts, if_pos ⟨hmem, hsucceeds⟩, ← hr', ← h.attempts r (rows_subset hordered hr)]
        rfl
      · rw [hmarked, ← hissued] at hnot
        rw [h.attempts row hrow, if_neg (fun hin => hnot hin.1), Nat.add_zero]
    · rw [keys_commitPublished]
      exact hknown q hq

/-- A batch that is taken in brings a row that no poll has seen. -/
theorem CountsCommitted.ingest {db' : Database} {now createdAt : Instant} {eventId : UUID}
    {correlationId : String} {batch : TelemetryBatch} {r : IngestionResponse}
    (h : CountsCommitted polls db)
    (hingest : ingestBatch now createdAt eventId correlationId batch db = .ok (db', r)) :
    CountsCommitted polls db' := by
  rcases ingestBatch_cases hingest with ⟨-, -, rfl⟩ | ⟨_, _, _, _, -, -, -, -, -, hinsert, rfl⟩
  · exact ⟨h.attempts, h.known⟩
  · obtain ⟨hnew, hrows⟩ := Table.insert_eq_some hinsert
    refine ⟨fun row hrow => ?_, fun p hp => ?_⟩
    · simp only [hrows] at hrow
      rcases List.mem_append.mp hrow with hrow | hrow
      · exact h.attempts row hrow
      · obtain rfl := List.mem_singleton.mp hrow
        symm
        refine List.countP_eq_zero.mpr (fun p hp hissued => hnew (h.known p hp ?_))
        simpa using (Bool.and_eq_true_iff.mp hissued).1
    · refine List.Subset.trans (h.known p hp) ?_
      simp only [Table.keys, hrows, List.map_append]
      exact List.subset_append_left ..

/-- What a run of the relay preserves. -/
theorem RelayRun.countsCommitted (h : RelayRun polls db) : CountsCommitted polls db := by
  induction h with
  | start =>
    exact ⟨fun _ hrow => absurd hrow List.not_mem_nil, fun _ hp => absurd hp List.not_mem_nil⟩
  | ingest _ hingest ih => exact ih.ingest hingest
  | poll _ hordered ih => exact ih.poll hordered

/-- The two counts are the same exactly if all calls that issued an `xadd` for the row commit. -/
theorem committedFor_eq_issuedFor (eventId : UUID) :
    committedFor eventId polls = issuedFor eventId polls ↔
      ∀ p ∈ polls, eventId ∈ p.issued → p.succeeds = true := by
  induction polls with
  | nil => exact iff_of_true rfl (fun _ hp => absurd hp List.not_mem_nil)
  | cons p polls ih =>
    have hle : committedFor eventId polls ≤ issuedFor eventId polls :=
      List.countP_mono_left (fun p _ hp => (Bool.and_eq_true_iff.mp hp).1)
    rw [List.forall_mem_cons, ← ih, committedFor, issuedFor, List.countP_cons, List.countP_cons,
      ← committedFor, ← issuedFor]
    by_cases hissued : eventId ∈ p.issued
    · cases hsucceeds : p.succeeds with
      | true => simp [hissued]
      | false =>
        simp [hissued]
        omega
    · simp [hissued]

end

/-- ATTEMPTS: in every state of a run between two polls, the counter of every row is the number of
    the calls that issued an `xadd` for it, if and only if every poll so far that had rows to publish
    went through. -/
theorem publication_attempts_counted {polls : List RelayPoll} {db : Database}
    (h : RelayRun polls db) :
    (∀ row ∈ db.outboxEvents.rows, row.publicationAttempts = issuedFor row.eventId polls) ↔
      ∀ p ∈ polls, p.rows = [] ∨ p.succeeds = true := by
  have hcounts := h.countsCommitted
  constructor
  · intro hall p hp
    rcases List.eq_nil_or_concat p.issued with hnil | ⟨_, eventId, hissued⟩
    · exact Or.inl (issued_eq_nil.mp hnil)
    · have hmem : eventId ∈ p.issued := by
        rw [hissued]
        simp
      obtain ⟨row, hrow, rfl⟩ := Table.mem_keys.mp (hcounts.known p hp hmem)
      have hsame := (hcounts.attempts row hrow).symm.trans (hall row hrow)
      exact Or.inr ((committedFor_eq_issuedFor row.eventId).mp hsame p hp hmem)
  · intro hall row hrow
    rw [hcounts.attempts row hrow, committedFor_eq_issuedFor]
    intro p hp hmem
    refine (hall p hp).resolve_left (fun hnil => ?_)
    rw [issued_eq_nil.mpr hnil] at hmem
    exact absurd hmem List.not_mem_nil

/-! ### One event -/

/-- The database with one batch that waits for its publication. -/
def waitingDatabase : Database :=
  match ingestBatch 100 100 (uniformId 9) "request" olderBatch .empty with
  | .ok (db, _) => db
  | .error _ => .empty

/-- A poll that finds the row; its commit fails or not. -/
def onePoll (commitRaises : Bool) : RelayPoll :=
  ⟨unpublished waitingDatabase, fun _ => false, fun _ => false, commitRaises, 200⟩

theorem relayRun_onePoll (commitRaises : Bool) :
    RelayRun [onePoll commitRaises] (publishOnce (onePoll commitRaises) waitingDatabase) := by
  have hingest : ingestBatch 100 100 (uniformId 9) "request" olderBatch .empty =
      .ok (waitingDatabase, ⟨uniformId 1, .accepted, "request"⟩) := rfl
  have hordered : OrderedByCreation (unpublished waitingDatabase)
      (unpublished waitingDatabase) := by decide +kernel
  exact (RelayRun.start.ingest hingest).poll hordered

/-- A poll that goes through is counted. -/
theorem publication_attempts_counted_once : (onePoll false).issued ≠ [] ∧
    ∀ row ∈ (publishOnce (onePoll false) waitingDatabase).outboxEvents.rows,
      row.publicationAttempts = issuedFor row.eventId [onePoll false] := by
  refine ⟨by decide +kernel, ?_⟩
  refine (publication_attempts_counted (relayRun_onePoll false)).mpr (fun p hp => Or.inr ?_)
  rw [List.mem_singleton.mp hp]
  decide +kernel

/-- A poll whose commit fails is not. -/
theorem publication_attempt_lost : ¬ ∀ polls db, RelayRun polls db →
    ∀ row ∈ db.outboxEvents.rows, row.publicationAttempts = issuedFor row.eventId polls := by
  intro h
  have hcounted := h _ _ (relayRun_onePoll true)
  exact absurd hcounted (by decide +kernel)

end FleetPulse
