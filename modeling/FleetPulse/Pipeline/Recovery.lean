import FleetPulse.Lib.Progress
import FleetPulse.Pipeline.Acknowledgement
import FleetPulse.Pipeline.EndToEnd
import FleetPulse.Pipeline.FleetOrder

/-! The pipeline is never stuck: whatever has happened, one relay and one worker can finish the work.

        any state ──▶ no open transaction ──▶ all rows published ──▶ all entries acknowledged
           the database rolls back     the relay            the worker

    The database rolls back the transactions of the processes that are gone. Then a relay publishes
    what is not published, a transaction at a time, and a worker reclaims, reads and handles what is
    not acknowledged, a round of its loop at a time. The measures are the unpublished rows and the
    entries that are not acknowledged. -/

namespace FleetPulse
open Values Interleaving

/-- Open transactions are rolled back, and the processes `r` and `w` end where they are. -/
def Clears {ι : Type} (r w j : ι) : Event → Prop
  | .rolledBack _ => True
  | .stopped => j = r ∨ j = w
  | _ => False

/-- The steps of `publish_once` in the process `r`. -/
def Relays {ι : Type} (r j : ι) : Event → Prop
  | .selected _ | .locked _ | .skipped _ | .opened | .added _ | .published _ => j = r
  | _ => False

/-- The steps of the worker's loop in the process `w`. -/
def Works {ι : Type} (w j : ι) : Event → Prop
  | .started | .polled _ | .taken _ | .advanced .. | .finished _ | .measured _ => j = w
  | _ => False

section
variable {ι : Type} [DecidableEq ι] {libs : Libraries} {settings : ι → WorkerSettings}
  {s : Shared ι} {loc : ι → Local} {c : Config ι (Shared ι) Local} {i j r w : ι} {l : Local}

/-! ### The locks of others -/

theorem Step.rollback (libs : Libraries) (settings : ι → WorkerSettings)
    (h : l.inTransaction = true) : ∃ ids,
    Step libs settings j s l (.rolledBack ids) { s with locks := release j s } .idle := by
  cases l with
  | locking candidates rows => exact ⟨_, .relay (.rollbackLocking ..)⟩
  | publishing rows added => exact ⟨_, .relay (.rollback ..)⟩
  | _ => cases h

theorem length_release_lt {lock : UUID × ι} (h : lock ∈ s.locks) :
    (release lock.2 s).length < s.locks.length :=
  List.length_filter_lt_length_iff_exists.mpr ⟨lock, h, by simp⟩

/-- Nothing is locked in a configuration that is reached with the stores as they are. -/
def Unlocked (libs : Libraries) (settings : ι → WorkerSettings) (stores : Stores)
    (c : Config ι (Shared ι) Local) : Prop :=
  Reachable (pipeline libs settings) c ∧ c.shared.toStores = stores ∧ c.shared.locks = []

/-- One transaction after another is rolled back. -/
theorem canReach_unlocked (hc : Reachable (pipeline libs settings) c) :
    CanReach (pipeline libs settings) (Clears r w) c
      (Unlocked libs settings c.shared.toStores) := by
  refine (CanReach.exhaust (I := fun c' => Reachable (pipeline libs settings) c' ∧
    c'.shared.toStores = c.shared.toStores) (μ := fun c' => c'.shared.locks.length) ?_
    ⟨hc, rfl⟩).mono (fun c' h => ⟨h.1.1, h.1.2, List.length_eq_zero_iff.mp h.2⟩)
  rintro ⟨s, loc⟩ ⟨hreach, hstores⟩ hlocks
  obtain ⟨lock, hlock⟩ := List.exists_mem_of_length_pos (Nat.pos_of_ne_zero hlocks)
  obtain ⟨t, hrun⟩ := hreach
  obtain ⟨ids, hstep⟩ := Step.rollback libs settings (locks_open hrun lock hlock)
  exact .step hstep trivial (.here ⟨⟨⟨_, hrun.snoc hstep⟩, hstores⟩, length_release_lt hlock⟩)

/-- The process ends where it is. -/
theorem canReach_idle {stores : Stores} (hi : i = r ∨ i = w) (hc : Unlocked libs settings stores c) :
    CanReach (pipeline libs settings) (Clears r w) c (fun c' => Unlocked libs settings stores c' ∧
      c'.loc i = .idle ∧ ∀ j, c.loc j = .idle → c'.loc j = .idle) := by
  obtain ⟨s, loc⟩ := c
  obtain ⟨⟨t, hrun⟩, hstores, hlocks⟩ := hc
  have hothers : ∀ j, loc j = .idle → Function.update loc i .idle j = .idle := by
    intro j hj
    by_cases hji : j = i
    · rw [hji, Function.update_self]
    · rwa [Function.update_of_ne hji]
  cases hopen : (loc i).inTransaction with
  | true =>
    obtain ⟨ids, hstep⟩ := Step.rollback libs settings hopen
    refine .step hstep trivial (.here ⟨⟨⟨_, hrun.snoc hstep⟩, hstores, ?_⟩,
      Function.update_self .., hothers⟩)
    rw [release, hlocks, List.filter_nil]
  | false =>
    have hstep : Step libs settings i s (loc i) .stopped s .idle := .stop hopen
    exact .step hstep hi (.here ⟨⟨⟨_, hrun.snoc hstep⟩, hstores, hlocks⟩,
      Function.update_self .., hothers⟩)

/-- CLEARED: no transaction holds a lock, and both processes are about to start. -/
theorem canReach_cleared (hc : Reachable (pipeline libs settings) c) (r w : ι) :
    CanReach (pipeline libs settings) (Clears r w) c (fun c' =>
      Unlocked libs settings c.shared.toStores c' ∧ c'.loc r = .idle ∧ c'.loc w = .idle) := by
  refine (canReach_unlocked hc).bind (fun c₁ h₁ => ?_)
  refine (canReach_idle (.inl rfl) h₁).bind (fun c₂ ⟨h₂, hr, _⟩ => ?_)
  exact (canReach_idle (.inr rfl) h₂).mono (fun c₃ ⟨h₃, hw, hkeep⟩ => ⟨h₃, hkeep r hr, hw⟩)

/-! ### One transaction of the relay -/

/-- The candidates are locked one after another, up to the limit. -/
theorem canReach_publishing : ∀ {candidates : List UUID} {rows : List OutboxEventRecord}
    {s : Shared ι}, candidates.Nodup → rows.length ≤ publishLimit →
    rows ⊆ unpublished s.db → (∀ lock ∈ s.locks, lock.2 = r) →
    (∀ eventId ∈ candidates, eventId ∉ s.locks.map Prod.fst ∧
      ∃ row ∈ unpublished s.db, row.eventId = eventId) →
    CanReach (pipeline libs settings) (Relays r) (solo loc r s (.locking candidates rows))
      (fun c => ∃ s' rows', c = solo loc r s' (.publishing rows' []) ∧
        s'.toStores = s.toStores ∧ (∀ lock ∈ s'.locks, lock.2 = r) ∧
        rows' ⊆ unpublished s.db ∧ rows ⊆ rows' ∧ (rows' = [] → candidates = []))
  | [], rows, s, _, _, hrows, hlocks, _ =>
      .own (.relay (.opened (.inl rfl))) rfl (.here ⟨s, rows, rfl, rfl, hlocks, hrows,
        List.Subset.refl _, fun _ => rfl⟩)
  | eventId :: candidates, rows, s, hnodup, hlength, hrows, hlocks, hcandidates => by
      by_cases hfull : rows.length = publishLimit
      · refine .own (.relay (.opened (.inr hfull))) rfl (.here ⟨s, rows, rfl, rfl, hlocks, hrows,
          List.Subset.refl _, ?_⟩)
        rintro rfl
        cases hfull
      · obtain ⟨hfree, row, hrow, hid⟩ := hcandidates eventId List.mem_cons_self
        obtain ⟨hmem, hnone⟩ := mem_unpublished.mp hrow
        have hfind := Table.find?_eq_some_iff.mpr ⟨hmem, hid⟩
        obtain ⟨hfresh, hnodup⟩ := List.nodup_cons.mp hnodup
        refine .own (.relay (.lock (by omega) hfree hfind hnone)) rfl
          ((canReach_publishing hnodup ?_ ?_ ?_ ?_).mono ?_)
        · rw [List.length_append, List.length_singleton]
          omega
        · intro r hr
          rcases List.mem_append.mp hr with hr | hr
          · exact hrows hr
          · exact List.mem_singleton.mp hr ▸ hrow
        · exact List.forall_mem_cons.mpr ⟨rfl, hlocks⟩
        · intro other hother
          obtain ⟨hunlocked, hexists⟩ := hcandidates other (List.mem_cons_of_mem _ hother)
          refine ⟨?_, hexists⟩
          rw [List.map_cons, List.mem_cons, not_or]
          exact ⟨fun h => hfresh ((show other = eventId from h) ▸ hother), hunlocked⟩
        · rintro c ⟨s', rows', rfl, hstores, hlocks', hrows', hsub, -⟩
          refine ⟨s', rows', rfl, hstores, hlocks', hrows',
            fun r hr => hsub (List.mem_append_left _ hr), ?_⟩
          rintro rfl
          have hlast := hsub (List.mem_append_right _ (List.mem_singleton_self row))
          exact absurd hlast List.not_mem_nil

/-- Each locked row gets its entry. -/
theorem canReach_added : ∀ {rows added : List OutboxEventRecord} {s : Shared ι},
    CanReach (pipeline libs settings) (Relays r) (solo loc r s (.publishing rows added))
      (fun c => ∃ s', c = solo loc r s' (.publishing [] (added ++ rows.map (markPublished 0))) ∧
        s'.db = s.db ∧ s'.locks = s.locks)
  | [], added, s => .here ⟨s, by simp, rfl, rfl⟩
  | row :: rows, added, s => by
      refine .own (.relay (.add s row rows added 0)) rfl (canReach_added.mono ?_)
      rintro c ⟨s', rfl, hdb, hlocks⟩
      exact ⟨s', by simp, hdb, hlocks⟩

/-- The commit takes the rows out of the unpublished ones. -/
theorem length_unpublished_lt {db : Database} {rows : List OutboxEventRecord}
    {outboxEvents : Table OutboxEventRecord.eventId} (hrows : rows ⊆ unpublished db)
    (hne : rows ≠ [])
    (hcommit : outboxEvents = commitPublished (rows.map (markPublished 0)) db.outboxEvents) :
    (unpublished { db with outboxEvents }).length < (unpublished db).length := by
  have hpublished : ∀ event ∈ rows.map (markPublished 0), event.publishedAt ≠ none := by
    intro event hevent
    obtain ⟨row, -, rfl⟩ := List.mem_map.mp hevent
    exact nofun
  have hleft : ∀ r ∈ unpublished { db with outboxEvents },
      r ∈ unpublished db ∧ ∀ row ∈ rows, r.eventId ≠ row.eventId := by
    intro r hr
    obtain ⟨hmem, hnone⟩ := mem_unpublished.mp hr
    rw [hcommit] at hmem
    have hunmarked : ∀ event ∈ rows.map (markPublished 0), r.eventId ≠ event.eventId :=
      fun event hevent hid => commitPublished_marks hpublished hmem ⟨event, hevent, hid⟩ hnone
    refine ⟨mem_unpublished.mpr ⟨(mem_commitPublished_of_ne hunmarked).mp hmem, hnone⟩, ?_⟩
    exact fun row hrow => hunmarked (markPublished 0 row) (List.mem_map_of_mem hrow)
  obtain ⟨row, hrow⟩ := List.exists_mem_of_ne_nil rows hne
  have hnodup : (unpublished { db with outboxEvents }).Nodup :=
    (List.Nodup.of_map _ outboxEvents.nodup).filter _
  have hsub : unpublished { db with outboxEvents } ⊆ (unpublished db).erase row := by
    intro r hr
    obtain ⟨hmem, hid⟩ := hleft r hr
    exact (List.mem_erase_of_ne (fun h => hid row hrow (congrArg _ h))).mpr hmem
  have hlength := (hnodup.subperm hsub).length_le
  rw [List.length_erase_of_mem (hrows hrow)] at hlength
  have hpos := List.length_pos_of_mem (hrows hrow)
  omega

/-- ONE TRANSACTION: fewer rows are unpublished. -/
theorem canReach_published (hlocks : s.locks = []) (hne : (unpublished s.db).length ≠ 0) :
    CanReach (pipeline libs settings) (Relays r) (solo loc r s .idle) (fun c =>
      ∃ s', c = solo loc r s' .idle ∧ s'.locks = [] ∧
        (unpublished s'.db).length < (unpublished s.db).length) := by
  let events := (unpublished s.db).insertionSort (fun a b => a.createdAt ≤ b.createdAt)
  have hperm : events.Perm (unpublished s.db) := List.perm_insertionSort _ _
  have hordered : OrderedByCreation (unpublished s.db) events :=
    ⟨hperm, List.pairwise_insertionSort _ _⟩
  have hnodup : (events.map OutboxEventRecord.eventId).Nodup := by
    rw [(hperm.map _).nodup_iff]
    exact s.db.outboxEvents.nodup.sublist (List.filter_sublist.map _)
  refine .own (.relay (.select hordered)) rfl
    ((canReach_publishing hnodup (Nat.zero_le _) (List.nil_subset _) (by simp [hlocks]) ?_).bind ?_)
  · intro eventId hid
    obtain ⟨row, hrow, rfl⟩ := List.mem_map.mp hid
    exact ⟨by simp [hlocks], row, hperm.subset hrow, rfl⟩
  · rintro _ ⟨s', rows, rfl, hstores', hown, hrows, -, hnil⟩
    have hdb' : s'.db = s.db := congrArg Stores.db hstores'
    have hsome : rows ≠ [] := by
      intro h
      refine hne ?_
      rw [← hperm.length_eq, ← List.length_map OutboxEventRecord.eventId, hnil h]
      rfl
    refine canReach_added.bind ?_
    rintro _ ⟨s'', rfl, hdb'', hlocks''⟩
    refine .own (.relay (.commit ..)) rfl (.here ⟨_, rfl, ?_, ?_⟩)
    · simpa [release, hlocks''] using fun eventId j hlock => hown (eventId, j) hlock
    · simp only [List.nil_append, hdb'', hdb']
      exact length_unpublished_lt hrows hsome rfl

/-- THE RELAY: all rows are published. -/
theorem canReach_allPublished (hlocks : s.locks = []) :
    CanReach (pipeline libs settings) (Relays r) (solo loc r s .idle) (fun c =>
      ∃ s', c = solo loc r s' .idle ∧ (unpublished s'.db).length = 0) := by
  refine (CanReach.exhaust (I := fun c => ∃ s', c = solo loc r s' .idle ∧ s'.locks = [])
    (μ := fun c => (unpublished c.shared.db).length) ?_ ⟨s, rfl, hlocks⟩).mono ?_
  · rintro _ ⟨s', rfl, hlocks'⟩ hne
    refine (canReach_published hlocks' hne).mono ?_
    rintro _ ⟨s'', rfl, hlocks'', hlt⟩
    exact ⟨⟨s'', rfl, hlocks''⟩, hlt⟩
  · rintro _ ⟨⟨s', rfl, -⟩, hzero⟩
    exact ⟨s', rfl, hzero⟩

/-! ### One round of the worker -/

/-- What polls and handling keep: the entries and the outbox; and no acknowledgement is taken
    back. -/
structure Settles (s s' : Stores) : Prop where
  entries : s'.stream.entries = s.stream.entries
  acked : ∀ id, s.stream.Acked id → s'.stream.Acked id
  outboxEvents : s'.db.outboxEvents = s.db.outboxEvents

theorem Settles.refl (s : Stores) : Settles s s := ⟨rfl, fun _ h => h, rfl⟩

theorem Settles.trans {s s' s'' : Stores} (h : Settles s s') (h' : Settles s' s'') :
    Settles s s'' :=
  ⟨h'.entries.trans h.entries, fun id hid => h'.acked id (h.acked id hid),
    h'.outboxEvents.trans h.outboxEvents⟩

/-- An entry of the queue is handled, and acknowledged. -/
theorem canReach_handled {next : Poll} {id : ℕ} {fields : Fields} {queue : List (ℕ × Fields)}
    (hc : Reachable (pipeline libs settings)
      (solo loc w s (.polling next ((id, fields) :: queue))))
    (hid : id < s.stream.delivered) :
    CanReach (pipeline libs settings) (Works w)
      (solo loc w s (.polling next ((id, fields) :: queue)))
      (fun c => ∃ s', c = solo loc w s' (.polling next queue) ∧
        Settles s.toStores s'.toStores ∧ s'.stream.delivered = s.stream.delivered ∧
        s'.stream.Acked id) := by
  obtain ⟨t, hrun⟩ := hc
  have hdurable : Durable libs s.toStores := (durable_run hrun).1
  have hqueue : ∀ p ∈ (id, fields) :: queue, s.stream.entries[p.1]? = some p.2 := by
    have hassertion := (durable_run hrun).2 w
    simp only [solo, Function.update_self] at hassertion
    exact hassertion
  obtain ⟨row, batch, haccepted, hdecode⟩ := hdurable.entry (hqueue _ List.mem_cons_self)
  obtain ⟨db, hprocess⟩ := haccepted.processes libs (settings w) id
  have houtbox : db.outboxEvents = s.db.outboxEvents := by
    rcases processEvent_cases hprocess with ⟨-, rfl⟩ | ⟨_, _, _, -, -, -, -, -, rfl⟩ <;> rfl
  have hreceived : advance libs (settings w) id fields .received s.toStores =
      .ok (.processing (queueEvent row), s.toStores) := by
    simp only [advance, hdecode, Except.map, tryBlock]
  have hprocessed : advance libs (settings w) id fields (.processing (queueEvent row)) s.toStores =
      .ok (.invalidating, { s.toStores with db }) := by
    simp only [advance, hprocess, Except.map, tryBlock]
  refine .own (.worker (.take ..)) rfl (.own (.worker (.advance (by simp) hreceived)) rfl
    (.own (.worker (.advance (by simp) hprocessed)) rfl (.own (.worker (.advance (by simp) rfl)) rfl
      (.own (.worker (.advance (by simp) rfl)) rfl (.own (.worker (.finish ..)) rfl (.here ?_))))))
  refine ⟨_, rfl, ⟨rfl, fun id' h => ?_, houtbox⟩, rfl, ?_⟩
  · exact ConsumerGroup.acked_ack.mpr (.inl h)
  · exact ConsumerGroup.acked_ack.mpr (.inr ⟨rfl, hid⟩)

/-- The whole queue. -/
theorem canReach_emptied {next : Poll} : ∀ {queue : List (ℕ × Fields)} {s : Shared ι},
    Reachable (pipeline libs settings) (solo loc w s (.polling next queue)) →
    (∀ p ∈ queue, p.1 < s.stream.delivered) →
    CanReach (pipeline libs settings) (Works w) (solo loc w s (.polling next queue))
      (fun c => ∃ s', c = solo loc w s' (.polling next []) ∧
        Settles s.toStores s'.toStores ∧ s'.stream.delivered = s.stream.delivered ∧
        ∀ p ∈ queue, s'.stream.Acked p.1)
  | [], s, _, _ => .here ⟨s, rfl, .refl _, rfl, nofun⟩
  | (id, fields) :: queue, s, hc, hdelivered => by
      refine ((canReach_handled hc (hdelivered _ List.mem_cons_self)).reachable hc).bind ?_
      rintro _ ⟨hc', s', rfl, hsettles, hsame, hacked⟩
      refine (canReach_emptied hc' ?_).mono ?_
      · exact fun p hp => hsame ▸ hdelivered p (List.mem_cons_of_mem _ hp)
      · rintro _ ⟨s'', rfl, hsettles', hsame', hacked'⟩
        refine ⟨s'', rfl, hsettles.trans hsettles', hsame'.trans hsame, fun p hp => ?_⟩
        rcases List.mem_cons.mp hp with rfl | hp
        · exact hsettles'.acked _ hacked
        · exact hacked' p hp

/-- The entry is neither acknowledged nor missing. -/
def unacknowledged (stream : ConsumerGroup Fields) : Finset ℕ :=
  (Finset.range stream.entries.length).filter (fun id => ¬ stream.Acked id)

theorem mem_unacknowledged {stream : ConsumerGroup Fields} {id : ℕ} :
    id ∈ unacknowledged stream ↔ id < stream.entries.length ∧ ¬ stream.Acked id := by
  rw [unacknowledged, Finset.mem_filter, Finset.mem_range]

theorem mem_delivered_of_lt {stream : ConsumerGroup Fields} {ids : List ℕ} {id : ℕ}
    (hid : id ∈ ids) (hlt : id < stream.entries.length) :
    ∃ fields, (id, fields) ∈ delivered stream ids := by
  refine ⟨stream.entries[id], List.mem_filterMap.mpr ⟨id, hid, ?_⟩⟩
  rw [List.getElem?_eq_getElem hlt]
  rfl

theorem lt_of_mem_delivered {stream : ConsumerGroup Fields} {ids : List ℕ} {n : ℕ}
    (hids : ∀ id ∈ ids, id < n) : ∀ p ∈ delivered stream ids, p.1 < n := by
  intro p hp
  obtain ⟨id, hid, hentry⟩ := List.mem_filterMap.mp hp
  obtain ⟨fields, -, rfl⟩ := Option.map_eq_some_iff.mp hentry
  exact hids id hid

/-- An entry that is acknowledged for the first time. -/
theorem Settles.card_lt {s s' : Stores} (h : Settles s s') {id : ℕ}
    (hid : id ∈ unacknowledged s.stream) (hacked : s'.stream.Acked id) :
    (unacknowledged s'.stream).card < (unacknowledged s.stream).card := by
  refine Finset.card_lt_card ((Finset.ssubset_iff_of_subset ?_).mpr ⟨id, hid, ?_⟩)
  · intro id' hid'
    rw [mem_unacknowledged, h.entries] at hid'
    exact mem_unacknowledged.mpr ⟨hid'.1, fun hacked => hid'.2 (h.acked _ hacked)⟩
  · simp [unacknowledged, hacked]

/-- Everything pending has been reclaimed. -/
def reclaimed (s : Shared ι) : Shared ι :=
  { s with stream := s.stream.autoclaim (fun _ => true) pollCount }

/-- The ids that a claim of everything pending hands out. -/
def claimed (s : Stores) : List ℕ := s.stream.claimIds (fun _ => true) pollCount

/-- A ROUND: what is reclaimed and then what is read is handled, and the gauge is set. -/
theorem canReach_round
    (hc : Reachable (pipeline libs settings) (solo loc w s (.polling .claim []))) :
    CanReach (pipeline libs settings) (Works w) (solo loc w s (.polling .claim []))
      (fun c => ∃ s', c = solo loc w s' (.polling .claim []) ∧ Settles s.toStores s'.toStores ∧
        (∀ id ∈ claimed s.toStores, s'.stream.Acked id) ∧
        ∀ id ∈ s.stream.newIds pollCount, s'.stream.Acked id) := by
  have hclaim : Step libs settings w s (.polling .claim []) (.polled (claimed s.toStores))
      (reclaimed s) (.polling .read (delivered s.stream (claimed s.toStores))) :=
    .worker (.claim s (fun _ => true))
  have hsettles : Settles s.toStores (reclaimed s).toStores :=
    ⟨rfl, fun _ => ConsumerGroup.acked_autoclaim.mpr, rfl⟩
  have hclaimed : ∀ id ∈ claimed s.toStores, id < s.stream.delivered :=
    fun id => ConsumerGroup.lt_of_mem_claimIds
  refine .own hclaim rfl (((canReach_emptied (hc.own hclaim)
    (lt_of_mem_delivered hclaimed)).reachable (hc.own hclaim)).bind ?_)
  rintro _ ⟨hc₁, s₁, rfl, hsettles₁, hdelivered₁, hacked₁⟩
  have hread : Step libs settings w s₁ (.polling .read []) (.polled (s₁.stream.newIds pollCount))
      { s₁ with stream := s₁.stream.readGroup pollCount }
      (.polling .measure (delivered s₁.stream (s₁.stream.newIds pollCount))) := .worker (.read s₁)
  have hsettles₂ : Settles s₁.toStores
      { s₁ with stream := s₁.stream.readGroup pollCount : Shared ι }.toStores :=
    ⟨rfl, fun _ => ConsumerGroup.acked_readGroup.mpr, rfl⟩
  refine .own hread rfl ((canReach_emptied (hc₁.own hread) (lt_of_mem_delivered
    (fun id hid => (ConsumerGroup.mem_newIds.mp hid).2))).bind ?_)
  rintro _ ⟨s₃, rfl, hsettles₃, -, hacked₃⟩
  have hlate : Settles s₁.toStores s₃.toStores := hsettles₂.trans hsettles₃
  have hentries : s₁.stream.entries = s.stream.entries := hsettles₁.entries
  refine .own (.worker (.measure s₃)) rfl (.here ⟨s₃, rfl,
    (hsettles.trans hsettles₁).trans hlate, fun id hid => ?_, fun id hid => ?_⟩)
  · obtain ⟨fields, hqueued⟩ :=
      mem_delivered_of_lt hid ((hclaimed id hid).trans_le s.stream.delivered_le)
    exact hlate.acked id (hacked₁ _ hqueued)
  · have hnew : id ∈ s₁.stream.newIds pollCount := by
      rw [ConsumerGroup.mem_newIds, ConsumerGroup.readTo, hdelivered₁, hentries]
      exact ConsumerGroup.mem_newIds.mp hid
    have hlt := (ConsumerGroup.mem_newIds.mp hnew).2
    obtain ⟨fields, hqueued⟩ := mem_delivered_of_lt hnew (hlt.trans_le (Nat.min_le_right _ _))
    exact hacked₃ _ hqueued

/-- A round hands out an entry that is not acknowledged, if there is one. -/
theorem exists_handedOut (s : Stores) (hne : (unacknowledged s.stream).card ≠ 0) :
    ∃ id ∈ unacknowledged s.stream, id ∈ claimed s ∨ id ∈ s.stream.newIds pollCount := by
  cases hpending : s.stream.pending with
  | cons p pending =>
    have hmem : p ∈ s.stream.pending := hpending ▸ List.mem_cons_self
    have hlt := s.stream.pending_lt p hmem
    refine ⟨p.1, mem_unacknowledged.mpr ⟨hlt.trans_le s.stream.delivered_le,
      fun hacked => hacked.2 (List.mem_map_of_mem hmem)⟩, .inl ?_⟩
    simp [claimed, ConsumerGroup.claimIds, hpending, pollCount]
  | nil =>
    obtain ⟨id, hid⟩ := Finset.card_ne_zero.mp hne
    obtain ⟨hlt, hunacked⟩ := mem_unacknowledged.mp hid
    have hnew : s.stream.delivered ≤ id := by
      by_contra hold
      exact hunacked ⟨by omega, by simp [ConsumerGroup.isPending, hpending]⟩
    exact ⟨s.stream.delivered,
      mem_unacknowledged.mpr ⟨by omega, fun hacked => lt_irrefl _ hacked.1⟩,
      .inr (ConsumerGroup.mem_newIds.mpr ⟨le_rfl, lt_min (by simp [pollCount]) (by omega)⟩)⟩

/-- THE WORKER: all entries are acknowledged. -/
theorem canReach_allAcknowledged
    (hc : Reachable (pipeline libs settings) (solo loc w s .idle)) :
    CanReach (pipeline libs settings) (Works w) (solo loc w s .idle) (fun c =>
      c.shared.db.outboxEvents = s.db.outboxEvents ∧
        (unacknowledged c.shared.stream).card = 0) := by
  have hstart : Step libs settings w s .idle .started s (.polling .claim []) := .worker (.start s)
  refine .own hstart rfl ((CanReach.exhaust
    (I := fun c => Reachable (pipeline libs settings) c ∧ ∃ s',
      c = solo loc w s' (.polling .claim []) ∧ s'.db.outboxEvents = s.db.outboxEvents)
    (μ := fun c => (unacknowledged c.shared.stream).card) ?_
    ⟨hc.own hstart, s, rfl, rfl⟩).mono ?_)
  · rintro _ ⟨hc', s', rfl, houtbox⟩ hne
    refine ((canReach_round hc').reachable hc').mono ?_
    rintro _ ⟨hc'', s'', rfl, hsettles, hclaimed, hread⟩
    obtain ⟨id, hid, hhanded⟩ := exists_handedOut s'.toStores hne
    exact ⟨⟨hc'', s'', rfl, hsettles.outboxEvents.trans houtbox⟩,
      hsettles.card_lt hid (hhanded.elim (hclaimed id) (hread id))⟩
  · rintro _ ⟨⟨-, s', rfl, houtbox⟩, hzero⟩
    exact ⟨houtbox, hzero⟩

/-! ### All of it -/

/-- Nothing is left to do: all rows are published, all entries acknowledged, and every stored batch is
    processed, with its agent in the fleet state. -/
structure Finished (libs : Libraries) (s : Stores) : Prop where
  published : ∀ event ∈ s.db.outboxEvents.rows, event.publishedAt ≠ none
  acknowledged : ∀ id < s.stream.entries.length, s.stream.Acked id
  processed : ∀ record ∈ s.db.telemetryBatches.rows, ∃ batch ∈ processedBatches libs s.db,
    batch.batchId = record.batchId ∧ batch.dump = record.payload
  shown : ∀ record ∈ s.db.telemetryBatches.rows, ∃ row ∈ s.db.fleetState.rows,
    row.agentId = record.agentId
  undead : s.deadLetters = []

/-- The batch of a row whose event was acknowledged is processed. -/
theorem processed_of_acked {t : List (ι × Event)} (h : Run (pipeline libs settings) t c)
    {record : TelemetryBatchRecord} {event : OutboxEventRecord} {id : ℕ}
    (hrecord : record ∈ c.shared.db.telemetryBatches.rows)
    (haggregate : event.aggregateId = record.batchId.str)
    (hevent : event ∈ c.shared.db.outboxEvents.rows)
    (hentry : c.shared.stream.entries[id]? = some (publishFields event))
    (hacked : c.shared.stream.Acked id) :
    ∃ batch ∈ processedBatches libs c.shared.db, batch.batchId = record.batchId ∧
      batch.dump = record.payload ∧ batch.agentId = record.agentId := by
  obtain ⟨hdurable, -⟩ := durable_run h
  obtain ⟨hnone, -⟩ := no_dead_letters h
  obtain ⟨batch, haccepted⟩ := hdurable.accepted (List.mem_map_of_mem hevent)
  obtain ⟨lo, hi, hstored⟩ := haccepted.record
  have hid : batch.batchId = record.batchId :=
    UUID.str_injective (haccepted.aggregateId.symm.trans haggregate)
  obtain rfl : batchRecord batch lo hi = record := Table.eq_of_key_eq _ hstored hrecord hid
  have hbatch := eventBatch_of_entry hdurable hentry haccepted.decodes (haccepted.storedBatch libs)
  rcases hdurable.settled id hacked with ⟨fields, event', hentry', hdecode, hprocessed⟩ |
    ⟨-, letter, hletter, -⟩
  · obtain rfl := Option.some.inj (hentry.symm.trans hentry')
    rw [haccepted.decodes] at hdecode
    cases hdecode
    exact ⟨batch, mem_processedBatches.mpr ⟨_, hprocessed, hbatch⟩, rfl, rfl, rfl⟩
  · rw [hnone] at hletter
    cases hletter

/-- No row is left to publish. -/
theorem published_of_length_eq_zero {db : Database} (h : (unpublished db).length = 0) :
    ∀ event ∈ db.outboxEvents.rows, event.publishedAt ≠ none := by
  intro event hevent hnone
  have hmem := mem_unpublished.mpr ⟨hevent, hnone⟩
  rw [List.length_eq_zero_iff.mp h] at hmem
  cases hmem

theorem finished_of_quiet (hc : Reachable (pipeline libs settings) c)
    (hpublished : (unpublished c.shared.db).length = 0)
    (hacked : (unacknowledged c.shared.stream).card = 0) : Finished libs c.shared.toStores := by
  obtain ⟨t, hrun⟩ := hc
  obtain ⟨hdurable, -⟩ := durable_run hrun
  have hrows := published_of_length_eq_zero hpublished
  have hall : ∀ id < c.shared.stream.entries.length, c.shared.stream.Acked id := by
    intro id hlt
    by_contra hunacked
    have hmem := mem_unacknowledged.mpr ⟨hlt, hunacked⟩
    rw [Finset.card_eq_zero.mp hacked] at hmem
    cases hmem
  have hprocessed : ∀ record ∈ c.shared.db.telemetryBatches.rows,
      ∃ batch ∈ processedBatches libs c.shared.db, batch.batchId = record.batchId ∧
        batch.dump = record.payload ∧ batch.agentId = record.agentId := by
    intro record hrecord
    obtain ⟨event, hevent, haggregate, -⟩ := hdurable.outbox_unique hrecord
    obtain ⟨id, hlt, hentry⟩ :=
      List.mem_iff_getElem.mp (hdurable.published event hevent (hrows event hevent))
    exact processed_of_acked hrun hrecord haggregate hevent
      (List.getElem?_eq_some_iff.mpr ⟨hlt, hentry⟩) (hall id hlt)
  refine ⟨hrows, hall, fun record hrecord => ?_, fun record hrecord => ?_, (no_dead_letters hrun).1⟩
  · obtain ⟨batch, hbatch, hid, hpayload, -⟩ := hprocessed record hrecord
    exact ⟨batch, hbatch, hid, hpayload⟩
  · obtain ⟨batch, hbatch, -, -, hagent⟩ := hprocessed record hrecord
    exact hagent ▸ (stateMirrors_run hrun).row_of_batch hbatch

/-- No step but an ingestion touches the stored batches. -/
theorem telemetryBatches_of_steps {c' : Config ι (Shared ι) Local} {t : List (ι × Event)}
    (h : Steps (pipeline libs settings) c t c')
    (hnone : ∀ p ∈ t, ∀ batch eventId response, p.2 ≠ .ingested batch eventId response) :
    c'.shared.db.telemetryBatches = c.shared.db.telemetryBatches := by
  induction h with
  | refl => rfl
  | snoc _ hstep ih =>
    refine Eq.trans ?_ (ih (fun p hp => hnone p (List.mem_append_left _ hp)))
    rcases Step.telemetryBatches hstep with ⟨_, _, _, _, _, _, -, rfl, -⟩ | ⟨hsame, -⟩
    · exact (hnone _ (List.mem_append_right _ (List.mem_singleton_self _)) _ _ _ rfl).elim
    · exact hsame

theorem canReach_batches {E : ι → Event → Prop} {Q : Config ι (Shared ι) Local → Prop}
    (hnone : ∀ j batch eventId response, ¬ E j (.ingested batch eventId response))
    (h : CanReach (pipeline libs settings) E c Q) : CanReach (pipeline libs settings) E c (fun c' =>
      c'.shared.db.telemetryBatches = c.shared.db.telemetryBatches ∧ Q c') := by
  refine h.also (fun t c' hsteps hallowed => telemetryBatches_of_steps hsteps ?_)
  rintro ⟨j, e⟩ hp batch eventId response rfl
  exact hnone j _ _ _ (hallowed _ hp)

/-- NEVER STUCK: from every reachable state, whatever crashed, failed or is half done, the database
    can roll back what is open, and then one relay and one worker finish the work on everything that
    is stored. -/
theorem pipeline_recovers {t : List (ι × Event)} (h : Run (pipeline libs settings) t c) (r w : ι) :
    CanReach (pipeline libs settings) (Clears r w) c (fun c₀ => c₀.shared.locks = [] ∧
      CanReach (pipeline libs settings) (Relays r) c₀ (fun c₁ =>
        (∀ event ∈ c₁.shared.db.outboxEvents.rows, event.publishedAt ≠ none) ∧
        CanReach (pipeline libs settings) (Works w) c₁ (fun c₂ =>
          c₂.shared.db.telemetryBatches = c.shared.db.telemetryBatches ∧
            Finished libs c₂.shared.toStores))) := by
  refine (canReach_cleared ⟨t, h⟩ r w).mono (fun c₀ ⟨⟨hc₀, hstores, hlocks⟩, hr, hw⟩ => ?_)
  have hrelay : CanReach (pipeline libs settings) (Relays r) c₀ _ :=
    solo_eq hr ▸ canReach_allPublished hlocks
  refine ⟨hlocks, ((canReach_batches (fun _ _ _ _ h => h) hrelay).reachable hc₀).mono ?_⟩
  rintro c₁ ⟨hc₁, hbatches₁, s₁, rfl, hpublished⟩
  have hidle : (solo c₀.loc r s₁ .idle).loc w = .idle := by
    by_cases hwr : w = r
    · rw [hwr]; exact Function.update_self ..
    · exact (Function.update_of_ne hwr ..).trans hw
  have hworker : CanReach (pipeline libs settings) (Works w) (solo c₀.loc r s₁ .idle) _ :=
    solo_eq hidle ▸ canReach_allAcknowledged (solo_eq hidle ▸ hc₁)
  refine ⟨published_of_length_eq_zero hpublished, ?_⟩
  refine ((canReach_batches (fun _ _ _ _ h => h) hworker).reachable hc₁).mono ?_
  rintro c₂ ⟨hc₂, hbatches₂, houtbox, hacked⟩
  refine ⟨hbatches₂.trans (hbatches₁.trans (congrArg (fun s => s.db.telemetryBatches) hstores)),
    finished_of_quiet hc₂ ?_ hacked⟩
  rw [unpublished, houtbox]
  exact hpublished

end

theorem pipeline_recovers_halfway : ∃ t c,
    Run (pipeline Libraries.canonical (fun _ : Bool => smallSettings)) t c ∧
    c.shared.locks ≠ [] ∧ unpublished c.shared.db ≠ [] ∧
    CanReach (pipeline Libraries.canonical (fun _ : Bool => smallSettings)) (Clears true false) c
      (fun c₀ => c₀.shared.locks = [] ∧
        CanReach (pipeline Libraries.canonical (fun _ : Bool => smallSettings)) (Relays true) c₀
          (fun c₁ => (∀ event ∈ c₁.shared.db.outboxEvents.rows, event.publishedAt ≠ none) ∧
            CanReach (pipeline Libraries.canonical (fun _ : Bool => smallSettings)) (Works false) c₁
              (fun c₂ => c₂.shared.db.telemetryBatches = c.shared.db.telemetryBatches ∧
                Finished Libraries.canonical c₂.shared.toStores))) := by
  have hrun : (schedule Libraries.canonical (fun _ : Bool => smallSettings)
      ((ingestActions olderBatch 5 (uniformId 3) ++
        [Action.select [outboxEvent 5 (uniformId 3) "request" olderBatch], .go]).map
          (fun a => (false, a))) [] (initial Bool)).any
      (fun r => decide (r.2.shared.locks ≠ [] ∧ unpublished r.2.shared.db ≠ [])) = true := by
    decide +kernel
  obtain ⟨t, c, hrun, hcheck⟩ := exists_run hrun
  obtain ⟨hlocks, hrows⟩ := of_decide_eq_true hcheck
  exact ⟨t, c, hrun, hlocks, hrows, pipeline_recovers hrun true false⟩

end FleetPulse
