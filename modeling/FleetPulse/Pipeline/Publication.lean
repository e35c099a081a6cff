import FleetPulse.Pipeline.Durability

/-! How often an event gets into the stream: once for the transaction that commits it, and once for
    each transaction that added it and was rolled back.

    The lock of a row and the second look at its `published_at` make the transactions disjoint:
    whoever has added an event and not yet ended holds its lock, and the row of a committed event is
    never locked again (`Counted`). What a transaction has added so far is read off the run
    (`addedBy`), so the counts are about the steps that were taken. -/

namespace FleetPulse
open Values Interleaving

/-! ### Reading a run -/

/-- The event that the step adds to the stream. -/
def addedEvent : Event → Option UUID
  | .added eventId => some eventId
  | _ => none

/-- The events that the committing step marks published. -/
def committedEvents : Event → List UUID
  | .published eventIds => eventIds
  | _ => []

/-- The events whose entries stay behind although the step rolls their transaction back. -/
def rolledBackEvents : Event → List UUID
  | .rolledBack eventIds => eventIds
  | _ => []

/-- What the open transaction of a process has added after one more of its steps. -/
def nextAdded (added : List UUID) : Event → List UUID
  | .selected _ | .published _ | .rolledBack _ => []
  | .added eventId => added ++ [eventId]
  | _ => added

section
variable {ι : Type}

/-- The events added to the stream, in order. -/
def addedEvents (t : List (ι × Event)) : List UUID := t.filterMap (fun x => addedEvent x.2)

/-- How many transactions committed the event. -/
def commits (eventId : UUID) (t : List (ι × Event)) : ℕ :=
  t.countP (fun x => eventId ∈ committedEvents x.2)

/-- How many transactions were rolled back after they had added the event. -/
def rollbacks (eventId : UUID) (t : List (ι × Event)) : ℕ :=
  t.countP (fun x => eventId ∈ rolledBackEvents x.2)

/-- What the open transaction of the process has added so far. -/
def addedBy [DecidableEq ι] (i : ι) (t : List (ι × Event)) : List UUID :=
  t.foldl (fun added x => if x.1 = i then nextAdded added x.2 else added) []

/-- How many entries of the stream carry the event. -/
def entriesOf (s : Stores) (eventId : UUID) : ℕ :=
  s.stream.entries.countP (fun fields => fields.lookup "event_id" = some eventId.str)

theorem addedEvents_concat (t : List (ι × Event)) (i : ι) (e : Event) :
    addedEvents (t ++ [(i, e)]) = addedEvents t ++ (addedEvent e).toList := by
  rw [addedEvents, addedEvents, List.filterMap_append]
  cases h : addedEvent e <;> simp [h]

theorem commits_concat (eventId : UUID) (t : List (ι × Event)) (i : ι) (e : Event) :
    commits eventId (t ++ [(i, e)]) =
      commits eventId t + if eventId ∈ committedEvents e then 1 else 0 := by
  simp [commits, List.countP_append, List.countP_singleton]

theorem rollbacks_concat (eventId : UUID) (t : List (ι × Event)) (i : ι) (e : Event) :
    rollbacks eventId (t ++ [(i, e)]) =
      rollbacks eventId t + if eventId ∈ rolledBackEvents e then 1 else 0 := by
  simp [rollbacks, List.countP_append, List.countP_singleton]

theorem addedBy_concat_self [DecidableEq ι] (i : ι) (t : List (ι × Event)) (e : Event) :
    addedBy i (t ++ [(i, e)]) = nextAdded (addedBy i t) e := by
  simp [addedBy]

theorem addedBy_concat_of_ne [DecidableEq ι] {i j : ι} (h : j ≠ i) (t : List (ι × Event))
    (e : Event) : addedBy j (t ++ [(i, e)]) = addedBy j t := by
  simp [addedBy, Ne.symm h]

theorem addedBy_concat_of_next [DecidableEq ι] {i : ι} {t : List (ι × Event)} {e : Event}
    (h : nextAdded (addedBy i t) e = addedBy i t) (j : ι) :
    addedBy j (t ++ [(i, e)]) = addedBy j t := by
  by_cases hij : j = i
  · subst hij; rw [addedBy_concat_self, h]
  · exact addedBy_concat_of_ne hij t e

end

/-! ### The invariant -/

/-- The transaction of the process has locked the row, which is still unpublished. -/
structure Held {ι : Type} (i : ι) (s : Shared ι) (row : OutboxEventRecord) : Prop where
  locked : (row.eventId, i) ∈ s.locks
  unpublished : ∃ r ∈ s.db.outboxEvents.rows, r.asInserted = row.asInserted ∧ r.publishedAt = none

/-- Different rows in the order of their creation. -/
def IsBatch (rows : List OutboxEventRecord) : Prop :=
  (rows.map OutboxEventRecord.eventId).Nodup ∧ rows.Pairwise (fun a b => a.createdAt ≤ b.createdAt)

/-- One row may stand in for another of that id and time. -/
theorem IsBatch.replace {rows later : List OutboxEventRecord} {event row : OutboxEventRecord}
    (h : IsBatch (rows ++ event :: later)) (hid : row.eventId = event.eventId)
    (hat : row.createdAt = event.createdAt) : IsBatch (rows ++ row :: later) := by
  obtain ⟨hnodup, hordered⟩ := h
  refine ⟨?_, ?_⟩
  · simpa [hid] using hnodup
  · simpa [List.pairwise_append, hat] using hordered

section
variable {ι : Type} [DecidableEq ι]

/-- Where a relay transaction stands. -/
def transaction (i : ι) (t : List (ι × Event)) (s : Shared ι) : Local → Prop
  | .locking candidates rows => addedBy i t = [] ∧ rows.length ≤ publishLimit ∧
      (∀ row ∈ rows, Held i s row) ∧ ∃ later, candidates = later.map OutboxEventRecord.eventId ∧
        (∀ row ∈ later, InOutbox s.toStores row) ∧ IsBatch (rows ++ later)
  | .publishing rows added => addedBy i t = added.map OutboxEventRecord.eventId ∧
      (added ++ rows).length ≤ publishLimit ∧ (∀ row ∈ added ++ rows, Held i s row) ∧
      IsBatch (added ++ rows) ∧ ∀ row ∈ added, row.publishedAt ≠ none
  | _ => addedBy i t = []

/-- The counts of a run: what was added is committed, or rolled back, or still held by the one
    transaction that has the lock. -/
structure Counted (t : List (ι × Event)) (s : Shared ι) : Prop where
  entries : s.stream.entries.map (fun fields => fields.lookup "event_id") =
    (addedEvents t).map (fun eventId => some eventId.str)
  locks : (s.locks.map Prod.fst).Nodup
  once : ∀ eventId, commits eventId t ≤ 1
  marked : ∀ eventId, commits eventId t ≠ 0 →
    ∃ row ∈ s.db.outboxEvents.rows, row.eventId = eventId ∧ row.publishedAt ≠ none
  held : ∀ eventId i, (eventId, i) ∈ s.locks → eventId ∈ addedBy i t →
    (addedEvents t).count eventId = rollbacks eventId t + commits eventId t + 1
  ended : ∀ eventId, (∀ i, (eventId, i) ∈ s.locks → eventId ∉ addedBy i t) →
    (addedEvents t).count eventId = rollbacks eventId t + commits eventId t

end

/-- A step that is none of a relay leaves the counts, the locks, the stream and the outbox rows. -/
structure BesideRelays {ι : Type} (s : Shared ι) (l : Local) (e : Event) (s' : Shared ι) (l' : Local) :
    Prop where
  added : addedEvent e = none
  committed : committedEvents e = []
  rolledBack : rolledBackEvents e = []
  next : ∀ added, nextAdded added e = added
  locks : s'.locks = s.locks
  outboxEvents : s.db.outboxEvents.rows <+: s'.db.outboxEvents.rows
  entries : s'.stream.entries = s.stream.entries
  closed : (l.inTransaction = false ∧ l'.inTransaction = false) ∨ l' = l

section
variable {ι : Type} [DecidableEq ι] {libs : Libraries} {settings : ι → WorkerSettings}
  {s s' : Shared ι} {l l' : Local} {e : Event} {i : ι} {t : List (ι × Event)}

theorem Step.relay_or_outside (h : Step libs settings i s l e s' l') :
    RelayStep i s l e s' l' ∨ BesideRelays s l e s' l' := by
  cases h with
  | relay h => exact Or.inl h
  | api h =>
    right
    cases h with
    | commit hingest =>
      refine ⟨rfl, rfl, rfl, fun _ => rfl, rfl, ?_, rfl, Or.inl ⟨rfl, rfl⟩⟩
      rcases ingestBatch_cases hingest with ⟨-, -, rfl⟩ | ⟨_, _, _, _, -, -, -, -, -, hout, rfl⟩
      · exact List.prefix_rfl
      · simp only [(Table.insert_eq_some hout).2]; exact List.prefix_append _ _
    | _ => exact ⟨rfl, rfl, rfl, fun _ => rfl, rfl, List.prefix_rfl, rfl, Or.inl ⟨rfl, rfl⟩⟩
  | worker h =>
    right
    obtain ⟨-, -, houtbox, hentries⟩ := h.frame
    have hpre : s.db.outboxEvents.rows <+: s'.db.outboxEvents.rows := by
      rw [houtbox]
    cases h <;>
      exact ⟨rfl, rfl, rfl, fun _ => rfl, rfl, hpre, hentries, Or.inl ⟨rfl, rfl⟩⟩
  | reader h =>
    right
    obtain ⟨hdb, hstream, -, hlocks⟩ := h.frame
    have hpre : s.db.outboxEvents.rows <+: s'.db.outboxEvents.rows := by rw [hdb]
    have hentries : s'.stream.entries = s.stream.entries := by rw [hstream]
    cases h <;>
      exact ⟨rfl, rfl, rfl, fun _ => rfl, hlocks, hpre, hentries, Or.inl ⟨rfl, rfl⟩⟩
  | expire =>
    exact Or.inr ⟨rfl, rfl, rfl, fun _ => rfl, rfl, List.prefix_rfl, rfl, Or.inr rfl⟩
  | stop hopen =>
    exact Or.inr ⟨rfl, rfl, rfl, fun _ => rfl, rfl, List.prefix_rfl, rfl, Or.inl ⟨hopen, rfl⟩⟩

/-! ### Steps of a relay -/

omit [DecidableEq ι] in
theorem lock_unique {locks : List (UUID × ι)} (h : (locks.map Prod.fst).Nodup) {eventId : UUID}
    {i j : ι} (hi : (eventId, i) ∈ locks) (hj : (eventId, j) ∈ locks) : i = j :=
  congrArg Prod.snd (List.inj_on_of_nodup_map h hi hj rfl)

theorem mem_release {lock : UUID × ι} : lock ∈ release i s ↔ lock ∈ s.locks ∧ lock.2 ≠ i := by
  simp [release]

/-- A step that adds, commits and rolls back nothing keeps the counts. -/
theorem Counted.same (hc : Counted t s) (hadded : addedEvent e = none)
    (hcommitted : committedEvents e = []) (hrolledBack : rolledBackEvents e = [])
    (hnext : ∀ j, addedBy j (t ++ [(i, e)]) = addedBy j t)
    (hentries : s'.stream.entries = s.stream.entries)
    (hrows : s.db.outboxEvents.rows ⊆ s'.db.outboxEvents.rows)
    (hnodup : (s'.locks.map Prod.fst).Nodup)
    (hlocks : ∀ eventId j, eventId ∈ addedBy j t →
      ((eventId, j) ∈ s'.locks ↔ (eventId, j) ∈ s.locks)) :
    Counted (t ++ [(i, e)]) s' := by
  have hevents : addedEvents (t ++ [(i, e)]) = addedEvents t := by
    rw [addedEvents_concat, hadded]; simp
  have hcommits : ∀ eventId, commits eventId (t ++ [(i, e)]) = commits eventId t := by
    intro eventId; rw [commits_concat, hcommitted]; simp
  have hrollbacks : ∀ eventId, rollbacks eventId (t ++ [(i, e)]) = rollbacks eventId t := by
    intro eventId; rw [rollbacks_concat, hrolledBack]; simp
  refine ⟨by rw [hentries, hevents]; exact hc.entries, hnodup, ?_, ?_, ?_, ?_⟩
  · exact fun eventId => by rw [hcommits]; exact hc.once eventId
  · intro eventId h
    rw [hcommits] at h
    obtain ⟨row, hrow, hid, hp⟩ := hc.marked eventId h
    exact ⟨row, hrows hrow, hid, hp⟩
  · intro eventId j hlock hmem
    rw [hnext] at hmem
    rw [hevents, hcommits, hrollbacks]
    exact hc.held eventId j ((hlocks eventId j hmem).mp hlock) hmem
  · intro eventId h
    rw [hevents, hcommits, hrollbacks]
    refine hc.ended eventId (fun j hlock hmem => ?_)
    refine h j ((hlocks eventId j hmem).mpr hlock) ?_
    rw [hnext]; exact hmem

/-- The `xadd` of a held row that the transaction has not added before. -/
theorem Counted.add (hc : Counted t s) {row : OutboxEventRecord} (hheld : Held i s row)
    (hnew : row.eventId ∉ addedBy i t) :
    Counted (t ++ [(i, .added row.eventId)])
      { s with stream := s.stream.add (publishFields row) } := by
  have hevents : addedEvents (t ++ [(i, .added row.eventId)]) = addedEvents t ++ [row.eventId] :=
    addedEvents_concat ..
  have hcommits : ∀ eventId, commits eventId (t ++ [(i, .added row.eventId)]) =
      commits eventId t := by
    intro eventId; rw [commits_concat]; simp [committedEvents]
  have hrollbacks : ∀ eventId, rollbacks eventId (t ++ [(i, .added row.eventId)]) =
      rollbacks eventId t := by
    intro eventId; rw [rollbacks_concat]; simp [rolledBackEvents]
  refine ⟨?_, hc.locks, ?_, ?_, ?_, ?_⟩
  · rw [hevents, List.map_append, ← hc.entries]
    exact List.map_append
  · exact fun eventId => by rw [hcommits]; exact hc.once eventId
  · intro eventId h
    rw [hcommits] at h
    exact hc.marked eventId h
  · intro eventId j hlock hmem
    rw [hevents, hcommits, hrollbacks, List.count_append]
    by_cases hid : row.eventId = eventId
    · subst hid
      -- before this step its holder had not added it
      have hended := hc.ended row.eventId (fun k hk => by
        rw [lock_unique hc.locks hk hheld.locked]; exact hnew)
      rw [hended, List.count_singleton_self]
    · rw [List.count_singleton]
      by_cases hij : j = i
      · subst hij
        rw [addedBy_concat_self, nextAdded, List.mem_append, List.mem_singleton] at hmem
        simp [hc.held eventId j hlock (hmem.resolve_right (Ne.symm hid)), hid]
      · rw [addedBy_concat_of_ne hij] at hmem
        simp [hc.held eventId j hlock hmem, hid]
  · intro eventId h
    rw [hevents, hcommits, hrollbacks, List.count_append, List.count_singleton]
    by_cases hid : row.eventId = eventId
    · subst hid
      refine absurd ?_ (h i hheld.locked)
      rw [addedBy_concat_self]
      exact List.mem_append_right _ (List.mem_singleton_self _)
    · have hended := hc.ended eventId (fun j hlock hmem => by
        refine h j hlock ?_
        by_cases hij : j = i
        · subst hij; rw [addedBy_concat_self]; exact List.mem_append_left _ hmem
        · rw [addedBy_concat_of_ne hij]; exact hmem)
      simp [hended, hid]

/-- The end of a transaction: all that it had added is committed, or all of it is rolled back. -/
theorem Counted.finish (hc : Counted t s)
    (hlocked : ∀ eventId ∈ addedBy i t, (eventId, i) ∈ s.locks) (hadded : addedEvent e = none)
    (hsum : ∀ eventId, (if eventId ∈ rolledBackEvents e then 1 else 0) +
      (if eventId ∈ committedEvents e then 1 else 0) = if eventId ∈ addedBy i t then 1 else 0)
    (hentries : s'.stream.entries = s.stream.entries) (hlocks : s'.locks = release i s)
    (honce : ∀ eventId, commits eventId (t ++ [(i, e)]) ≤ 1)
    (hmarked : ∀ eventId, commits eventId (t ++ [(i, e)]) ≠ 0 →
      ∃ row ∈ s'.db.outboxEvents.rows, row.eventId = eventId ∧ row.publishedAt ≠ none) :
    Counted (t ++ [(i, e)]) s' := by
  have hevents : addedEvents (t ++ [(i, e)]) = addedEvents t := by
    rw [addedEvents_concat, hadded]; simp
  -- what the two counts gain together
  have hgain : ∀ eventId, rollbacks eventId (t ++ [(i, e)]) + commits eventId (t ++ [(i, e)]) =
      rollbacks eventId t + commits eventId t + if eventId ∈ addedBy i t then 1 else 0 := by
    intro eventId
    rw [rollbacks_concat, commits_concat, ← hsum]
    ring
  refine ⟨by rw [hentries, hevents]; exact hc.entries, ?_, honce, hmarked, ?_, ?_⟩
  · rw [hlocks]
    exact hc.locks.sublist (List.filter_sublist.map Prod.fst)
  · intro eventId j hlock hmem
    rw [hlocks, mem_release] at hlock
    rw [addedBy_concat_of_ne hlock.2] at hmem
    have hnot : eventId ∉ addedBy i t := fun h =>
      hlock.2 (lock_unique hc.locks hlock.1 (hlocked eventId h))
    rw [hevents, hgain, if_neg hnot, hc.held eventId j hlock.1 hmem]
  · intro eventId h
    rw [hevents, hgain]
    by_cases hmem : eventId ∈ addedBy i t
    · rw [if_pos hmem, hc.held eventId i (hlocked eventId hmem) hmem]
    · rw [if_neg hmem]
      refine hc.ended eventId (fun j hlock hj => ?_)
      by_cases hij : j = i
      · exact hmem (hij ▸ hj)
      · refine h j ?_ ?_
        · rw [hlocks, mem_release]; exact ⟨hlock, hij⟩
        · rw [addedBy_concat_of_ne hij]; exact hj

/-- Nobody has committed an event whose row is held: the row is unpublished. -/
theorem Counted.commits_of_held (hc : Counted t s) {row : OutboxEventRecord}
    (hheld : Held i s row) : commits row.eventId t = 0 := by
  obtain ⟨r, hr, hsame, hnone⟩ := hheld.unpublished
  by_contra hne
  obtain ⟨r', hr', hid, hp⟩ := hc.marked _ hne
  have heq := s.db.outboxEvents.eq_of_key_eq hr' hr
    (hid.trans (OutboxEventRecord.eventId_eq hsame).symm)
  exact hp (heq ▸ hnone)

/-- The commit marks what the transaction has added: nobody committed it before. -/
theorem Counted.commit (hc : Counted t s) {added : List OutboxEventRecord}
    (hby : addedBy i t = added.map OutboxEventRecord.eventId)
    (hheld : ∀ row ∈ added, Held i s row) (hp : ∀ row ∈ added, row.publishedAt ≠ none) :
    Counted (t ++ [(i, .published (added.map OutboxEventRecord.eventId))])
      { s with db := { s.db with outboxEvents := commitPublished added s.db.outboxEvents },
               locks := release i s } := by
  have hcommits : ∀ eventId,
      commits eventId (t ++ [(i, .published (added.map OutboxEventRecord.eventId))]) =
        commits eventId t + if eventId ∈ addedBy i t then 1 else 0 := by
    intro eventId; rw [commits_concat, hby]; rfl
  refine hc.finish ?_ rfl ?_ rfl rfl ?_ ?_
  · intro eventId hmem
    rw [hby] at hmem
    obtain ⟨row, hrow, rfl⟩ := List.mem_map.mp hmem
    exact (hheld row hrow).locked
  · intro eventId
    rw [hby]
    simp [rolledBackEvents, committedEvents]
  · intro eventId
    rw [hcommits]
    split
    · next hmem =>
      rw [hby] at hmem
      obtain ⟨row, hrow, rfl⟩ := List.mem_map.mp hmem
      rw [hc.commits_of_held (hheld row hrow)]
    · exact hc.once eventId
  · intro eventId h
    rw [hcommits] at h
    by_cases hmem : eventId ∈ addedBy i t
    · rw [hby] at hmem
      obtain ⟨row, hrow, rfl⟩ := List.mem_map.mp hmem
      obtain ⟨r, hr, hsame, -⟩ := (hheld row hrow).unpublished
      have hkey : row.eventId ∈ (commitPublished added s.db.outboxEvents).keys := by
        rw [keys_commitPublished, ← OutboxEventRecord.eventId_eq hsame]
        exact Table.key_mem_keys hr
      obtain ⟨r', hr', hid⟩ := Table.mem_keys.mp hkey
      exact ⟨r', hr', hid, commitPublished_marks hp hr' ⟨row, hrow, hid⟩⟩
    · rw [if_neg hmem, Nat.add_zero] at h
      obtain ⟨row, hrow, hid, hpub⟩ := hc.marked eventId h
      refine ⟨row, (mem_commitPublished_of_ne fun event hevent heq => hmem ?_).mpr hrow, hid, hpub⟩
      rw [hby, ← hid, heq]
      exact List.mem_map_of_mem hevent

/-- A rollback leaves the entries that the transaction has added. -/
theorem Counted.rollback (hc : Counted t s) {eventIds : List UUID}
    (hlocked : ∀ eventId ∈ addedBy i t, (eventId, i) ∈ s.locks) (hby : eventIds = addedBy i t) :
    Counted (t ++ [(i, .rolledBack eventIds)]) { s with locks := release i s } := by
  have hcommits : ∀ eventId, commits eventId (t ++ [(i, .rolledBack eventIds)]) =
      commits eventId t := by
    intro eventId; rw [commits_concat]; simp [committedEvents]
  refine hc.finish hlocked rfl ?_ rfl rfl ?_ ?_
  · intro eventId
    rw [← hby]
    by_cases hmem : eventId ∈ eventIds <;> simp [rolledBackEvents, committedEvents, hmem]
  · exact fun eventId => by rw [hcommits]; exact hc.once eventId
  · intro eventId h
    rw [hcommits] at h
    exact hc.marked eventId h

/-! ### Runs -/

omit [DecidableEq ι] in
theorem Held.mono {j : ι} {row : OutboxEventRecord} (h : Held j s row)
    (hlock : (row.eventId, j) ∈ s'.locks)
    (hrows : ∀ r ∈ s.db.outboxEvents.rows, r.eventId = row.eventId →
      r ∈ s'.db.outboxEvents.rows) : Held j s' row := by
  obtain ⟨r, hr, hsame, hnone⟩ := h.unpublished
  exact ⟨hlock, r, hrows r hr (OutboxEventRecord.eventId_eq hsame), hsame, hnone⟩

/-- What a transaction holds survives as long as nobody touches it. -/
theorem transaction_mono {t' : List (ι × Event)} {j : ι} (hby : addedBy j t' = addedBy j t)
    (hg : Grows s.toStores s'.toStores) (hheld : ∀ row, Held j s row → Held j s' row)
    (h : transaction j t s l) : transaction j t' s' l := by
  cases l with
  | locking candidates rows =>
    obtain ⟨hadded, hlen, hrows, later, hlater, hin, hbatch⟩ := h
    exact ⟨hby.trans hadded, hlen, fun row hrow => hheld row (hrows row hrow), later, hlater,
      fun row hrow => (hin row hrow).mono hg, hbatch⟩
  | publishing rows added =>
    obtain ⟨hadded, hlen, hrows, hbatch, hp⟩ := h
    exact ⟨hby.trans hadded, hlen, fun row hrow => hheld row (hrows row hrow), hbatch, hp⟩
  | _ => exact hby.trans h

theorem transaction_of_closed {j : ι} (h : l.inTransaction = false) :
    transaction j t s l ↔ addedBy j t = [] := by
  cases l with
  | locking => cases h
  | publishing => cases h
  | _ => exact Iff.rfl

/-- No step of another process takes away what a transaction holds. -/
theorem Step.held_other (h : Step libs settings i s l e s' l') (hc : Counted t s)
    (hl : transaction i t s l) {j : ι} (hne : j ≠ i) {row : OutboxEventRecord}
    (hheld : Held j s row) : Held j s' row := by
  rcases Step.relay_or_outside h with hr | ho
  · cases hr with
    | lock => exact hheld.mono (List.mem_cons_of_mem _ hheld.locked) (fun r hr _ => hr)
    | commit added =>
      refine hheld.mono (mem_release.mpr ⟨hheld.locked, hne⟩) (fun r hr hid => ?_)
      refine (mem_commitPublished_of_ne fun event hevent heq => hne ?_).mpr hr
      refine lock_unique hc.locks hheld.locked ?_
      rw [← hid, heq]
      exact (hl.2.2.1 event (List.mem_append_left _ hevent)).locked
    | rollbackLocking | rollback =>
      exact hheld.mono (mem_release.mpr ⟨hheld.locked, hne⟩) (fun r hr _ => hr)
    | _ => exact hheld.mono hheld.locked (fun r hr _ => hr)
  · exact hheld.mono (ho.locks ▸ hheld.locked) (fun r hr _ => ho.outboxEvents.subset hr)

theorem createdAt_eq {row row' : OutboxEventRecord} (h : row.asInserted = row'.asInserted) :
    row.createdAt = row'.createdAt := by
  change row.asInserted.createdAt = row'.asInserted.createdAt
  rw [h]

/-- The next row of the snapshot is locked: it is that row, whatever its other columns are now. -/
theorem transaction_lock {eventId : UUID} {candidates : List UUID} {rows : List OutboxEventRecord}
    {row : OutboxEventRecord} (hc : Counted t s)
    (hl : transaction i t s (.locking (eventId :: candidates) rows))
    (hlen : rows.length < publishLimit) (hfree : eventId ∉ s.locks.map Prod.fst)
    (hfind : s.db.outboxEvents.find? eventId = some row) (hnone : row.publishedAt = none) :
    Counted (t ++ [(i, .locked eventId)]) { s with locks := (eventId, i) :: s.locks } ∧
      transaction i (t ++ [(i, .locked eventId)]) { s with locks := (eventId, i) :: s.locks }
        (.locking candidates (rows ++ [row])) := by
  obtain ⟨hadded, -, hrows, later, hlater, hin, hbatch⟩ := hl
  have hnext : ∀ j, addedBy j (t ++ [(i, .locked eventId)]) = addedBy j t :=
    addedBy_concat_of_next rfl
  have hid : row.eventId = eventId := Table.key_of_find? hfind
  refine ⟨hc.same rfl rfl rfl hnext rfl (List.Subset.refl _) (List.nodup_cons.mpr ⟨hfree, hc.locks⟩)
    ?_, (hnext i).trans hadded, ?_, ?_, ?_⟩
  · intro eventId' j hmem
    refine List.mem_cons.trans (or_iff_right ?_)
    rintro heq
    cases heq
    rw [hadded] at hmem
    exact List.not_mem_nil hmem
  · rw [List.length_append]; exact hlen
  · intro r hr
    rcases List.mem_append.mp hr with hr | hr
    · exact (hrows r hr).mono (List.mem_cons_of_mem _ (hrows r hr).locked) (fun r hr _ => hr)
    · rw [List.mem_singleton.mp hr]
      exact ⟨by rw [hid]; exact List.mem_cons_self .., row, Table.mem_of_find? hfind, rfl, hnone⟩
  · cases later with
    | nil => exact absurd hlater (List.cons_ne_nil _ _)
    | cons event later =>
      obtain ⟨hevent, hlater⟩ := List.cons.inj hlater
      have hsame := InOutbox.eq_of_eventId (s := s.toStores)
        (List.mem_map_of_mem (Table.mem_of_find? hfind)) (hin event (List.mem_cons_self ..))
        (hid.trans hevent)
      refine ⟨later, hlater, fun r hr => hin r (List.mem_cons_of_mem _ hr), ?_⟩
      rw [List.append_assoc]
      exact hbatch.replace (hid.trans hevent) (createdAt_eq hsame)

/-- Every step keeps the counts and leads its process to where its transaction then stands. -/
theorem RelayStep.counted (h : RelayStep i s l e s' l') (hc : Counted t s)
    (hl : transaction i t s l) :
    Counted (t ++ [(i, e)]) s' ∧ transaction i (t ++ [(i, e)]) s' l' := by
  cases h with
  | @select events hordered =>
    have hnext := addedBy_concat_of_next (t := t) (i := i)
      (e := .selected (events.map OutboxEventRecord.eventId)) (Eq.symm hl)
    have hrow : ∀ row ∈ events, row ∈ s.db.outboxEvents.rows := fun row hrow =>
      (mem_unpublished.mp (hordered.1.subset hrow)).1
    refine ⟨hc.same rfl rfl rfl hnext rfl (List.Subset.refl _) hc.locks (fun _ _ _ => Iff.rfl),
      (hnext i).trans hl, Nat.zero_le _, (fun _ h => absurd h List.not_mem_nil), events, rfl,
      fun row hr => List.mem_map_of_mem (hrow row hr), ?_, hordered.2⟩
    exact ((hordered.1.map OutboxEventRecord.eventId).nodup_iff).mpr
      (s.db.outboxEvents.nodup.sublist (List.filter_sublist.map _))
  | lock hlen hfree hfind hnone => exact transaction_lock hc hl hlen hfree hfind hnone
  | @skip eventId candidates rows hlen _ =>
    obtain ⟨hadded, _, hrows, later, hlater, hin, hnodup, hordered⟩ := hl
    have hnext := addedBy_concat_of_next (t := t) (i := i) (e := .skipped eventId) rfl
    refine ⟨hc.same rfl rfl rfl hnext rfl (List.Subset.refl _) hc.locks (fun _ _ _ => Iff.rfl),
      (hnext i).trans hadded, le_of_lt hlen, hrows, later.tail, ?_,
      fun row hr => hin row (List.mem_of_mem_tail hr), ?_, ?_⟩
    · rw [List.map_tail, ← hlater, List.tail_cons]
    · exact hnodup.sublist (((List.tail_sublist _).append_left rows).map _)
    · exact hordered.sublist ((List.tail_sublist _).append_left rows)
  | @opened candidates rows hdone =>
    obtain ⟨hadded, hlen, hrows, later, hlater, hin, hnodup, hordered⟩ := hl
    have hnext := addedBy_concat_of_next (t := t) (i := i) (e := .opened) rfl
    have hsub : rows.Sublist (rows ++ later) := List.sublist_append_left _ _
    exact ⟨hc.same rfl rfl rfl hnext rfl (List.Subset.refl _) hc.locks (fun _ _ _ => Iff.rfl),
      (hnext i).trans hadded, hlen, hrows, ⟨hnodup.sublist (hsub.map _), hordered.sublist hsub⟩,
      fun _ h => absurd h List.not_mem_nil⟩
  | add row rows added now =>
    obtain ⟨hby, hlen, hheld, hbatch, hp⟩ := hl
    have hnew : row.eventId ∉ addedBy i t := by
      rw [hby]
      have hnodup := hbatch.1
      rw [List.map_append, List.map_cons] at hnodup
      exact fun h => (List.disjoint_of_nodup_append hnodup) h (List.mem_cons_self ..)
    have hrow := hheld row (List.mem_append_right _ (List.mem_cons_self ..))
    have hstays : ∀ {r}, Held i s r → Held i { s with stream := s.stream.add (publishFields row) } r :=
      fun h => h.mono h.locked (fun r hr _ => hr)
    refine ⟨hc.add hrow hnew, ?_, ?_, ?_, ?_, ?_⟩
    · rw [addedBy_concat_self, nextAdded, hby, List.map_append]; rfl
    · simpa [Nat.add_assoc, Nat.add_comm 1] using hlen
    · intro r hr
      rw [List.append_assoc, List.singleton_append] at hr
      rcases List.mem_append.mp hr with hr | hr
      · exact hstays (hheld r (List.mem_append_left _ hr))
      · rcases List.mem_cons.mp hr with rfl | hr
        · exact ⟨hrow.locked, hrow.unpublished⟩
        · exact hstays (hheld r (List.mem_append_right _ (List.mem_cons_of_mem _ hr)))
    · rw [List.append_assoc]
      exact hbatch.replace rfl rfl
    · intro r hr
      rcases List.mem_append.mp hr with hr | hr
      · exact hp r hr
      · rw [List.mem_singleton.mp hr]; exact Option.some_ne_none now
  | commit added =>
    obtain ⟨hby, -, hheld, -, hp⟩ := hl
    rw [List.append_nil] at hheld
    exact ⟨hc.commit hby hheld hp, addedBy_concat_self ..⟩
  | rollbackLocking candidates rows =>
    exact ⟨hc.rollback (by rw [hl.1]; exact fun _ h => absurd h List.not_mem_nil) hl.1.symm,
      addedBy_concat_self ..⟩
  | rollback rows added =>
    obtain ⟨hby, -, hheld, -, -⟩ := hl
    refine ⟨hc.rollback (fun eventId hmem => ?_) hby.symm, addedBy_concat_self ..⟩
    rw [hby] at hmem
    obtain ⟨row, hrow, rfl⟩ := List.mem_map.mp hmem
    exact (hheld row (List.mem_append_left _ hrow)).locked

/-- Every step keeps the counts and leads its process to where its transaction then stands. -/
theorem Step.counted (h : Step libs settings i s l e s' l') (hc : Counted t s)
    (hl : transaction i t s l) :
    Counted (t ++ [(i, e)]) s' ∧ transaction i (t ++ [(i, e)]) s' l' := by
  rcases Step.relay_or_outside h with hr | ho
  · exact hr.counted hc hl
  · have hnext := addedBy_concat_of_next (t := t) (i := i) (ho.next _)
    refine ⟨hc.same ho.added ho.committed ho.rolledBack hnext ho.entries ho.outboxEvents.subset
      (by rw [ho.locks]; exact hc.locks) (fun _ _ _ => by rw [ho.locks]), ?_⟩
    rcases ho.closed with ⟨hopen, hopen'⟩ | rfl
    · rw [transaction_of_closed hopen', hnext]
      exact (transaction_of_closed hopen).mp hl
    · exact transaction_mono (hnext i) (Step.grows h) (fun row hheld =>
        hheld.mono (ho.locks ▸ hheld.locked) (fun r hr _ => ho.outboxEvents.subset hr)) hl

theorem counted_run {c : Config ι (Shared ι) Local} (h : Run (pipeline libs settings) t c) :
    Counted t c.shared ∧ ∀ i, transaction i t c.shared (c.loc i) := by
  refine h.outline (I := Counted) (L := fun i t s l => transaction i t s l) ?_ ?_ ?_ ?_
  · exact ⟨rfl, List.nodup_nil, fun _ => Nat.zero_le _, fun _ h => absurd rfl h,
      fun _ _ h => absurd h List.not_mem_nil, fun _ _ => rfl⟩
  · rintro i l rfl; rfl
  · exact fun t s loc i e s' l' _ hc hl hs => Step.counted hs hc hl
  · exact fun t s loc i e s' l' j _ hc hl hs hne hj => transaction_mono (addedBy_concat_of_ne hne t e)
      (Step.grows hs) (fun row hheld => Step.held_other hs hc hl hne hheld) hj

/-- What a process has added and not yet committed or rolled back it holds. -/
theorem held_of_added (hl : transaction i t s l) {eventId : UUID} (h : eventId ∈ addedBy i t) :
    ∃ row, row.eventId = eventId ∧ Held i s row := by
  cases l with
  | publishing rows added =>
    obtain ⟨hby, -, hheld, -, -⟩ := hl
    rw [hby] at h
    obtain ⟨row, hrow, hid⟩ := List.mem_map.mp h
    exact ⟨row, hid, hheld row (List.mem_append_left _ hrow)⟩
  | locking candidates rows => rw [hl.1] at h; exact absurd h List.not_mem_nil
  | _ => rw [show addedBy i t = [] from hl] at h; exact absurd h List.not_mem_nil

theorem Step.published {eventIds : List UUID}
    (h : Step libs settings i s l (.published eventIds) s' l') : ∃ added, l = .publishing [] added ∧
      eventIds = added.map OutboxEventRecord.eventId ∧
      s'.db.outboxEvents = commitPublished added s.db.outboxEvents := by
  cases h with
  | relay h => cases h with
    | commit added => exact ⟨added, rfl, rfl, rfl⟩
  | api h => cases h
  | worker h => cases h
  | reader h => cases h

theorem Step.rolledBack {eventIds : List UUID}
    (h : Step libs settings i s l (.rolledBack eventIds) s' l') (hl : transaction i t s l) :
    addedBy i t = eventIds := by
  cases h with
  | relay h => cases h with
    | rollbackLocking => exact hl.1
    | rollback => exact hl.1
  | api h => cases h
  | worker h => cases h
  | reader h => cases h

end

/-- The rows of the events were created in that order. -/
def CreatedInOrder (db : Database) (eventIds : List UUID) : Prop :=
  eventIds.Pairwise (fun a b => ∀ r ∈ db.outboxEvents.rows, ∀ r' ∈ db.outboxEvents.rows,
    r.eventId = a → r'.eventId = b → r.createdAt ≤ r'.createdAt)

/-- The event goes from unpublished to published. -/
def Marks (db db' : Database) (eventId : UUID) : Prop :=
  (∃ r ∈ db.outboxEvents.rows, r.eventId = eventId ∧ r.publishedAt = none) ∧
    ∃ r ∈ db'.outboxEvents.rows, r.eventId = eventId ∧ r.publishedAt ≠ none

section
variable {ι : Type} [DecidableEq ι] {libs : Libraries} {settings : ι → WorkerSettings}
  {s s' : Shared ι} {i : ι} {t : List (ι × Event)}

omit [DecidableEq ι] in
theorem createdInOrder_of_held {rows : List OutboxEventRecord} (hheld : ∀ row ∈ rows, Held i s row)
    (hordered : rows.Pairwise (fun a b => a.createdAt ≤ b.createdAt)) :
    CreatedInOrder s.db (rows.map OutboxEventRecord.eventId) := by
  refine List.pairwise_map.mpr (hordered.imp_of_mem fun {a b} ha hb hle r hr r' hr' hid hid' => ?_)
  have hat : ∀ row ∈ rows, ∀ r ∈ s.db.outboxEvents.rows, r.eventId = row.eventId →
      r.createdAt = row.createdAt := by
    intro row hrow r hr hid
    obtain ⟨r₀, hr₀, hsame, -⟩ := (hheld row hrow).unpublished
    rw [s.db.outboxEvents.eq_of_key_eq hr hr₀
      (hid.trans (OutboxEventRecord.eventId_eq hsame).symm)]
    exact createdAt_eq hsame
  rw [hat a ha r hr hid, hat b hb r' hr' hid']
  exact hle

omit [DecidableEq ι] in
/-- The commit marks the rows of the transaction and no others. -/
theorem marks_commit_iff {added : List OutboxEventRecord} {db' : Database}
    (hheld : ∀ row ∈ added, Held i s row) (hp : ∀ row ∈ added, row.publishedAt ≠ none)
    (hdb : db'.outboxEvents = commitPublished added s.db.outboxEvents) (eventId : UUID) :
    Marks s.db db' eventId ↔ eventId ∈ added.map OutboxEventRecord.eventId := by
  rw [Marks, hdb]
  constructor
  · rintro ⟨⟨r, hr, hid, hnone⟩, r', hr', hid', hp'⟩
    by_contra hnot
    have hr' := (mem_commitPublished_of_ne fun event hevent heq => hnot ?_).mp hr'
    · exact hp' (s.db.outboxEvents.eq_of_key_eq hr hr' (hid.trans hid'.symm) ▸ hnone)
    · rw [← hid', heq]; exact List.mem_map_of_mem hevent
  · intro hmem
    obtain ⟨row, hrow, rfl⟩ := List.mem_map.mp hmem
    obtain ⟨r, hr, hsame, hnone⟩ := (hheld row hrow).unpublished
    have hid := OutboxEventRecord.eventId_eq hsame
    have hkey : row.eventId ∈ (commitPublished added s.db.outboxEvents).keys := by
      rw [keys_commitPublished, ← hid]; exact Table.key_mem_keys hr
    obtain ⟨r', hr', hid'⟩ := Table.mem_keys.mp hkey
    exact ⟨⟨r, hr, hid, hnone⟩, r', hr', hid', commitPublished_marks hp hr' ⟨row, hrow, hid'⟩⟩

theorem Counted.entriesOf (hc : Counted t s) (eventId : UUID) :
    entriesOf s.toStores eventId = (addedEvents t).count eventId := by
  have hleft : FleetPulse.entriesOf s.toStores eventId =
      (s.stream.entries.map (fun fields => fields.lookup "event_id")).countP
        (fun id => id = some eventId.str) := by
    rw [List.countP_map]; rfl
  rw [hleft, hc.entries, List.countP_map, List.count]
  refine List.countP_congr (fun id _ => ?_)
  simp [UUID.str_injective.eq_iff]

/-- Beyond the rolled-back transactions, one transaction has added the event: the one that committed
    it or the one that holds it. -/
theorem Counted.count_le {c : Config ι (Shared ι) Local} (hc : Counted t c.shared)
    (hl : ∀ i, transaction i t c.shared (c.loc i)) (eventId : UUID) :
    (addedEvents t).count eventId ≤ 1 + rollbacks eventId t := by
  by_cases hopen : ∃ i, (eventId, i) ∈ c.shared.locks ∧ eventId ∈ addedBy i t
  · obtain ⟨i, hlock, hmem⟩ := hopen
    obtain ⟨row, rfl, hheld⟩ := held_of_added (hl i) hmem
    rw [hc.held _ i hlock hmem, hc.commits_of_held hheld]
    omega
  · rw [hc.ended eventId (fun i hlock hmem => hopen ⟨i, hlock, hmem⟩)]
    have := hc.once eventId
    omega

/-- PUBLICATION: in every reachable state the stream has at most one entry of an event more than
    there are rolled-back transactions that had added it; no event is committed twice; and a
    transaction that commits has added exactly the events it marks published, each once, at most a
    hundred, in the order of their creation. -/
theorem publication_bounded {c : Config ι (Shared ι) Local} (h : Run (pipeline libs settings) t c) :
    c.shared.stream.entries.map (fun fields => fields.lookup "event_id") =
      (addedEvents t).map (fun eventId => some eventId.str) ∧
    (∀ eventId, entriesOf c.shared.toStores eventId ≤ 1 + rollbacks eventId t) ∧
    (∀ eventId, commits eventId t ≤ 1) ∧
    (∀ i eventIds s' l', Step libs settings i c.shared (c.loc i) (.rolledBack eventIds) s' l' →
      addedBy i t = eventIds) ∧
    ∀ i eventIds s' l', Step libs settings i c.shared (c.loc i) (.published eventIds) s' l' →
      addedBy i t = eventIds ∧ eventIds.Nodup ∧ eventIds.length ≤ 100 ∧
      CreatedInOrder c.shared.db eventIds ∧
      ∀ eventId, Marks c.shared.db s'.db eventId ↔ eventId ∈ eventIds := by
  obtain ⟨hc, hl⟩ := counted_run h
  refine ⟨hc.entries, fun eventId => ?_, hc.once, fun i eventIds s' l' hstep =>
    Step.rolledBack hstep (hl i), fun i eventIds s' l' hstep => ?_⟩
  · rw [hc.entriesOf]
    exact hc.count_le hl eventId
  · obtain ⟨added, hloc, rfl, hdb⟩ := Step.published hstep
    have htransaction : transaction i t c.shared (.publishing [] added) := hloc ▸ hl i
    obtain ⟨hby, hlen, hheld, ⟨hnodup, hordered⟩, hp⟩ := htransaction
    rw [List.append_nil] at hlen hheld hnodup hordered
    exact ⟨hby, hnodup, by rw [List.length_map]; exact hlen, createdInOrder_of_held hheld hordered,
      marks_commit_iff hheld hp hdb⟩

end

/-- Two relays: the first adds an event and is rolled back, the second adds it again and commits. -/
def repeatedActions : List (Bool × Action) :=
  let event := outboxEvent 5 (uniformId 3) "request" olderBatch
  (ingestActions olderBatch 5 (uniformId 3)).map (fun a => (true, a)) ++
    [(true, .select [event]), (false, .select [event]), (true, .go), (true, .go), (true, .add 100),
      (true, .fail), (false, .go), (false, .go), (false, .add 101)]

/-- The stream has two entries of the event after one rollback, and the commit marks it. -/
theorem publication_bounded_repeated :
    ∃ t c, Run (pipeline Libraries.canonical (fun _ : Bool => smallSettings)) t c ∧
      entriesOf c.shared.toStores (uniformId 3) = 2 ∧
      entriesOf c.shared.toStores (uniformId 3) ≤ 1 + rollbacks (uniformId 3) t ∧
      ∃ s' l', Step Libraries.canonical (fun _ : Bool => smallSettings) false c.shared (c.loc false)
          (.published [uniformId 3]) s' l' ∧
        Marks c.shared.db s'.db (uniformId 3) := by
  have hrun : (schedule Libraries.canonical (fun _ : Bool => smallSettings) repeatedActions []
      (initial Bool)).any (fun r => decide (entriesOf r.2.shared.toStores (uniformId 3) = 2 ∧
        ((perform Libraries.canonical (fun _ : Bool => smallSettings) false .go r.2.shared
          (r.2.loc false)).map Prod.fst = some (.published [uniformId 3])))) = true := by
    decide +kernel
  obtain ⟨t, c, hrun, hcheck⟩ := exists_run hrun
  obtain ⟨hentries, hnext⟩ := of_decide_eq_true hcheck
  obtain ⟨⟨e, s', l'⟩, hperform, rfl⟩ := Option.map_eq_some_iff.mp hnext
  have hstep := perform_sound hperform
  have hbounded := publication_bounded hrun
  exact ⟨t, c, hrun, hentries, hbounded.2.1 _, s', l', hstep,
    ((hbounded.2.2.2.2 false _ s' l' hstep).2.2.2.2 _).mpr (List.mem_singleton_self _)⟩

end FleetPulse
