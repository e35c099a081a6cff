import FleetPulse.Api.Models

/-! The outbox relay: which rows `publish_once` selects, what it adds to the stream for a row, and
    what its commit writes back.

    The columns that announce an event never change after the insert (`asInserted`); publication only
    sets `published_at` and counts the attempts. -/

namespace FleetPulse
open Values

/-- The fields of a stream entry, a mapping from strings to strings. -/
abbrev Fields := List (String × String)

namespace OutboxEventRecord

/-- The row as it was inserted. -/
def asInserted (event : OutboxEventRecord) : OutboxEventRecord :=
  { event with publishedAt := none, publicationAttempts := 0 }

@[simp] theorem asInserted_eventId (event : OutboxEventRecord) :
    event.asInserted.eventId = event.eventId := rfl

theorem eventId_eq {event event' : OutboxEventRecord} (h : event.asInserted = event'.asInserted) :
    event.eventId = event'.eventId := by
  rw [← event.asInserted_eventId, h, event'.asInserted_eventId]

theorem aggregateId_eq {event event' : OutboxEventRecord}
    (h : event.asInserted = event'.asInserted) : event.aggregateId = event'.aggregateId := by
  change event.asInserted.aggregateId = event'.asInserted.aggregateId
  rw [h]

end OutboxEventRecord

/-- What `publish_once` adds to the stream for a row. -/
def publishFields (event : OutboxEventRecord) : Fields :=
  [("event_id", event.eventId.str), ("event_type", event.eventType),
    ("aggregate_id", event.aggregateId), ("payload", Json.dumps event.payload)]

@[simp] theorem publishFields_asInserted (event : OutboxEventRecord) :
    publishFields event.asInserted = publishFields event := rfl

/-- `select(OutboxEventRecord).where(OutboxEventRecord.published_at.is_(None))`. -/
def unpublished (db : Database) : List OutboxEventRecord :=
  db.outboxEvents.rows.filter (fun event => event.publishedAt.isNone)

theorem mem_unpublished {db : Database} {event : OutboxEventRecord} :
    event ∈ unpublished db ↔ event ∈ db.outboxEvents.rows ∧ event.publishedAt = none := by
  simp [unpublished, Option.isNone_iff_eq_none]

/-- `.order_by(OutboxEventRecord.created_at)`: the same rows in that order, equal times as the
    database likes. -/
def OrderedByCreation (rows events : List OutboxEventRecord) : Prop :=
  events.Perm rows ∧ events.Pairwise (fun a b => a.createdAt ≤ b.createdAt)

instance (rows events : List OutboxEventRecord) : Decidable (OrderedByCreation rows events) := by
  unfold OrderedByCreation; infer_instance

/-- `.limit(100)`. -/
def publishLimit : ℕ := 100

/-- What `publish_once` sets on a row after its `xadd`, at the clock reading `now`. -/
def markPublished (now : Instant) (event : OutboxEventRecord) : OutboxEventRecord :=
  { event with publishedAt := some now, publicationAttempts := event.publicationAttempts + 1 }

/-- The `UPDATE` of one changed row. -/
def updatePublished (event : OutboxEventRecord) (outbox : Table OutboxEventRecord.eventId) :
    Table OutboxEventRecord.eventId :=
  outbox.updateWhere (fun r => r.eventId = event.eventId)
    (fun r => { r with publishedAt := event.publishedAt,
                       publicationAttempts := event.publicationAttempts }) (fun _ => rfl)

/-- The commit of `publish_once` writes every changed row. -/
def commitPublished (events : List OutboxEventRecord) (outbox : Table OutboxEventRecord.eventId) :
    Table OutboxEventRecord.eventId :=
  events.foldl (fun outbox event => updatePublished event outbox) outbox

theorem asInserted_updatePublished (event : OutboxEventRecord)
    (outbox : Table OutboxEventRecord.eventId) :
    (updatePublished event outbox).rows.map OutboxEventRecord.asInserted =
      outbox.rows.map OutboxEventRecord.asInserted := by
  rw [updatePublished, Table.rows_updateWhere, List.map_map]
  exact List.map_congr_left (fun r _ => by simp only [Function.comp]; split <;> rfl)

/-- Publication leaves what was inserted as it was. -/
theorem asInserted_commitPublished : ∀ (events : List OutboxEventRecord)
    (outbox : Table OutboxEventRecord.eventId),
    (commitPublished events outbox).rows.map OutboxEventRecord.asInserted =
      outbox.rows.map OutboxEventRecord.asInserted
  | [], _ => rfl
  | event :: events, outbox => by
      rw [commitPublished, List.foldl_cons]
      exact (asInserted_commitPublished events _).trans (asInserted_updatePublished event outbox)

theorem keys_commitPublished (events : List OutboxEventRecord)
    (outbox : Table OutboxEventRecord.eventId) : (commitPublished events outbox).keys = outbox.keys := by
  have h := congrArg (List.map OutboxEventRecord.eventId) (asInserted_commitPublished events outbox)
  rw [List.map_map, List.map_map] at h
  exact h

theorem published_updatePublished {event r : OutboxEventRecord}
    {outbox : Table OutboxEventRecord.eventId} (hr : r ∈ (updatePublished event outbox).rows)
    (hp : r.publishedAt ≠ none) :
    r.eventId = event.eventId ∨ r ∈ outbox.rows := by
  rw [updatePublished, Table.rows_updateWhere] at hr
  obtain ⟨r₀, hr₀, rfl⟩ := List.mem_map.mp hr
  by_cases h : r₀.eventId = event.eventId
  · left; simp [h]
  · right; simpa [h] using hr₀

/-- A row is published after the commit only if it was before or the transaction marked it. -/
theorem published_commitPublished : ∀ {events : List OutboxEventRecord} {r : OutboxEventRecord}
    {outbox : Table OutboxEventRecord.eventId}, r ∈ (commitPublished events outbox).rows →
    r.publishedAt ≠ none → (∃ event ∈ events, r.eventId = event.eventId) ∨ r ∈ outbox.rows
  | [], _, _, hr, _ => Or.inr hr
  | event :: events, r, outbox, hr, hp => by
      rw [commitPublished, List.foldl_cons] at hr
      rcases published_commitPublished hr hp with ⟨e, he, hid⟩ | h
      · exact Or.inl ⟨e, List.mem_cons_of_mem _ he, hid⟩
      · exact (published_updatePublished h hp).imp (fun hid => ⟨event, List.mem_cons_self .., hid⟩) id

theorem mem_updatePublished_of_ne {event r : OutboxEventRecord}
    {outbox : Table OutboxEventRecord.eventId} (h : r.eventId ≠ event.eventId) :
    r ∈ (updatePublished event outbox).rows ↔ r ∈ outbox.rows := by
  rw [updatePublished, Table.rows_updateWhere, List.mem_map]
  constructor
  · rintro ⟨r₀, hr₀, rfl⟩
    by_cases hid : r₀.eventId = event.eventId
    · exact absurd (by simp [hid]) h
    · simpa [hid] using hr₀
  · exact fun hr => ⟨r, hr, by simp [h]⟩

/-- The commit leaves the rows alone that the transaction did not mark. -/
theorem mem_commitPublished_of_ne {r : OutboxEventRecord} : ∀ {events : List OutboxEventRecord}
    {outbox : Table OutboxEventRecord.eventId}, (∀ event ∈ events, r.eventId ≠ event.eventId) →
    (r ∈ (commitPublished events outbox).rows ↔ r ∈ outbox.rows)
  | [], _, _ => Iff.rfl
  | event :: events, outbox, h => by
      rw [commitPublished, List.foldl_cons]
      exact (mem_commitPublished_of_ne (fun e he => h e (List.mem_cons_of_mem _ he))).trans
        (mem_updatePublished_of_ne (h event (List.mem_cons_self ..)))

/-- After the commit every row that the transaction marked is published. -/
theorem commitPublished_marks {r : OutboxEventRecord} : ∀ {events : List OutboxEventRecord}
    {outbox : Table OutboxEventRecord.eventId}, (∀ event ∈ events, event.publishedAt ≠ none) →
    r ∈ (commitPublished events outbox).rows → (∃ event ∈ events, r.eventId = event.eventId) →
    r.publishedAt ≠ none
  | [], _, _, _, ⟨_, he, _⟩ => absurd he List.not_mem_nil
  | event :: events, outbox, hp, hr, h => by
      have hp' : ∀ e ∈ events, e.publishedAt ≠ none := fun e he => hp e (List.mem_cons_of_mem _ he)
      rw [commitPublished, List.foldl_cons] at hr
      by_cases hlater : ∃ e ∈ events, r.eventId = e.eventId
      · exact commitPublished_marks hp' hr hlater
      · obtain ⟨e, he, hid⟩ := h
        rcases List.mem_cons.mp he with rfl | he
        · have hr' := (mem_commitPublished_of_ne (fun e he hid => hlater ⟨e, he, hid⟩)).mp hr
          rw [updatePublished, Table.rows_updateWhere] at hr'
          obtain ⟨r₀, -, rfl⟩ := List.mem_map.mp hr'
          by_cases hid₀ : r₀.eventId = e.eventId
          · simpa [hid₀] using hp e (List.mem_cons_self ..)
          · simp [hid₀] at hid
        · exact absurd ⟨e, he, hid⟩ hlater

end FleetPulse
