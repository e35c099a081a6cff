import FleetPulse.Pipeline.Poison

/-! The two records of a dead letter.

    `dead_letter` appends to the dead-letter stream, then inserts into `dead_letters`, then
    acknowledges. The insert ignores a message that is recorded already; the append does not look.
    Whoever handles an entry again after its append (a crash before the acknowledgement, a worker
    that was too slow) appends once more: the table has each message once, the stream once for every
    append. -/

namespace FleetPulse
open Values Interleaving

/-- Nobody but a worker writes a dead letter. -/
def KeepsDeadLetters {ι : Type} (s s' : Shared ι) : Prop :=
  s'.deadLetters = s.deadLetters ∧ s'.db.deadLetters = s.db.deadLetters

/-- Any number of workers, which have the dead letters to themselves. -/
def handlers {ι : Type} (libs : Libraries) (settings : ι → WorkerSettings) :
    Program ι (Shared ι) (Except PyError Local) Occurrence where
  init := Shared.init ι
  start _ l := l = .ok .idle
  step i s l e s' l' := ConsumerStep libs settings i s l e s' l' ∧
    (e = .outside → KeepsDeadLetters s s')

/-- The message that the step appends to the dead-letter stream. -/
def appended : Occurrence → Option ℕ
  | .worker (.advanced id (.deadLettering _ _) _) => some id
  | _ => none

section
variable {ι : Type}

/-- The messages appended to the dead-letter stream, in order. -/
def appendedIds (t : List (ι × Occurrence)) : List ℕ := t.filterMap (fun x => appended x.2)

/-- The message has been acknowledged at the end of `dead_letter`. -/
def DiscardedIn (t : List (ι × Occurrence)) (id : ℕ) : Prop :=
  ∃ i, (i, Occurrence.worker (.advanced id .discarding .returned)) ∈ t

theorem appendedIds_concat (t : List (ι × Occurrence)) (i : ι) (e : Occurrence) :
    appendedIds (t ++ [(i, e)]) = appendedIds t ++ (appended e).toList := by
  rw [appendedIds, appendedIds, List.filterMap_append]
  cases h : appended e <;> simp [h]

end

section
variable {ι : Type} [DecidableEq ι] {libs : Libraries} {settings : ι → WorkerSettings}
  {s s' : Shared ι} {l l' : Except PyError Local} {e : Occurrence} {i : ι}
  {t : List (ι × Occurrence)} {c : Config ι (Shared ι) (Except PyError Local)}

theorem handlers_consume (h : Run (handlers libs settings) t c) :
    Run (consumers libs settings) t c :=
  Run.weaken (P := handlers libs settings) (Q := consumers libs settings) rfl (fun _ _ h => h)
    (fun _ _ _ _ _ _ h => h.1) h

theorem handlers_grow {c c' : Config ι (Shared ι) (Except PyError Local)}
    (h : Steps (handlers libs settings) c t c') : Grows c.shared.toStores c'.shared.toStores := by
  refine h.monotone (R := fun s s' => Grows s.toStores s'.toStores) (fun s => Grows.refl s.toStores)
    Grows.trans ?_
  rintro i s l e s' l' ⟨hstep, -⟩
  exact hstep.grows

/-- A step of `handle_message` appends one dead letter if it is the one that appends. -/
theorem advance_appends {settings : WorkerSettings} {id : ℕ} {fields : Fields} {h h' : Handling}
    {s s' : Stores} (ha : advance libs settings id fields h s = .ok (h', s')) :
    s'.deadLetters.map DeadLetterEntry.sourceId = s.deadLetters.map DeadLetterEntry.sourceId ++
      (appended (.worker (.advanced id h h'))).toList := by
  have hcases := advance_cases ha
  cases h with
  | received => rw [hcases.1]; simp [appended]
  | processing event => rcases hcases with ⟨db, -, -, rfl⟩ | ⟨e, -, -, -, rfl⟩ <;> simp [appended]
  | failed error => rw [hcases.1]; simp [appended]
  | recording error attempts => rw [hcases.2.2]; simp [appended]
  | deadLettering error attempts => rw [hcases.2]; simp [appended, deadLetterEntry]
  | invalidating | settling | discarding | returned => rw [hcases.2]; simp [appended]

/-- A step of `handle_message` records a message only after its append. -/
theorem advance_records {settings : WorkerSettings} {id : ℕ} {fields : Fields} {h h' : Handling}
    {s s' : Stores} (ha : advance libs settings id fields h s = .ok (h', s'))
    (hdone : handlingDone libs s id fields h) {id' : ℕ} (hid : id' ∈ s'.db.deadLetters.keys) :
    id' ∈ s.db.deadLetters.keys ∨ DeadLettered s id' := by
  have hcases := advance_cases ha
  cases h with
  | received => rw [hcases.1] at hid; exact Or.inl hid
  | processing event =>
    rcases hcases with ⟨db, hprocess, -, rfl⟩ | ⟨e, -, -, -, rfl⟩
    · rcases processEvent_cases hprocess with ⟨-, rfl⟩ | ⟨_, _, _, -, -, -, -, -, rfl⟩ <;>
        exact Or.inl hid
    · exact Or.inl hid
  | failed error => rw [hcases.1] at hid; exact Or.inl hid
  | recording error attempts =>
    rw [hcases.2.2] at hid
    rcases s.db.deadLetters.insertOrIgnore_cases (deadLetterRecord id fields error attempts) with
      ⟨-, hrows, -⟩ | ⟨-, hrows, -⟩
    · rw [Table.keys, hrows] at hid; exact Or.inl hid
    · simp only [Table.keys, hrows, List.map_append, List.mem_append, List.map_cons, List.map_nil,
        List.mem_singleton] at hid
      rcases hid with hid | rfl
      · exact Or.inl hid
      · exact Or.inr hdone
  | deadLettering _ _ | invalidating | settling | discarding | returned =>
    rw [hcases.2] at hid; exact Or.inl hid

theorem handlers_append (h : Run (handlers libs settings) t c) :
    c.shared.deadLetters.map DeadLetterEntry.sourceId = appendedIds t := by
  refine (h.outline (I := fun t s => s.deadLetters.map DeadLetterEntry.sourceId = appendedIds t)
    (L := fun _ _ _ _ => True) rfl (fun _ _ _ => trivial) ?_
    (fun _ _ _ _ _ _ _ _ _ _ _ _ _ _ => trivial)).1
  intro t s loc i e s' l' _ hi _ hs
  refine ⟨?_, trivial⟩
  rw [appendedIds_concat, ← hi]
  obtain ⟨hs, hkeeps⟩ := hs
  generalize loc i = l at hs
  cases hs with
  | worker hw => cases hw with
    | advance _ ha => exact advance_appends ha
    | _ => simp [appended]
  | escape _ => simp [appended]
  | stop => simp [appended]
  | outside _ => rw [(hkeeps rfl).1]; simp [appended]

/-- Every row of `dead_letters` has an entry in the dead-letter stream. -/
theorem handlers_record (h : Run (handlers libs settings) t c) :
    ∀ id ∈ c.shared.db.deadLetters.keys, DeadLettered c.shared.toStores id := by
  refine h.invariant (I := fun s => ∀ id ∈ s.db.deadLetters.keys, DeadLettered s.toStores id)
    (fun _ h => absurd h List.not_mem_nil) ?_
  intro t s loc i e s' l' hrun hi hs id hid
  obtain ⟨hs, hkeeps⟩ := hs
  have hg := hs.grows
  have hl := (consumers_settle (handlers_consume hrun)).2 i
  simp only at hl
  generalize loc i = l at hs hl
  cases hs with
  | worker hw => cases hw with
    | advance _ ha =>
      rcases advance_records ha hl.2.2 hid with hid | hdead
      · exact (hi id hid).mono hg
      · exact hdead.mono hg
    | _ => exact (hi id hid).mono hg
  | escape _ => exact hi id hid
  | stop => exact hi id hid
  | outside _ =>
    rw [(hkeeps rfl).2] at hid
    exact (hi id hid).mono hg

/-- What was acknowledged at the end of `dead_letter` is in both places by then. -/
theorem handlers_discard (h : Run (handlers libs settings) t c) {id : ℕ} (hid : DiscardedIn t id) :
    id ∈ c.shared.db.deadLetters.keys ∧ DeadLettered c.shared.toStores id := by
  obtain ⟨i, hmem⟩ := hid
  obtain ⟨t₁, t₂, s, loc, s', l', -, hrun, ⟨hstep, -⟩, hsteps⟩ := h.exists_step hmem
  have hl := (consumers_settle (handlers_consume hrun)).2 i
  have hg : Grows s.toStores c.shared.toStores :=
    hstep.grows.trans (handlers_grow hsteps)
  simp only at hl
  generalize loc i = l at hstep hl
  cases hstep with
  | worker hw => cases hw with
    | advance _ ha =>
      obtain ⟨hkey, hdead⟩ := hl.2.2
      exact ⟨Table.keys_subset_of_prefix hg.deadLetterRows hkey, hdead.mono hg⟩

/-- DEAD LETTERS: a message that was acknowledged through `dead_letter` has one row in the table and
    at least one entry in the dead-letter stream, one for each append; every row of the table has an
    entry in the stream. -/
theorem dead_letters_recorded (h : Run (handlers libs settings) t c) :
    (∀ id, DiscardedIn t id →
      (c.shared.db.deadLetters.rows.countP (fun r => r.streamMessageId = id)) = 1 ∧
      1 ≤ c.shared.deadLetters.countP (fun entry => entry.sourceId = id)) ∧
    (∀ id, c.shared.deadLetters.countP (fun entry => entry.sourceId = id) =
      (appendedIds t).count id) ∧
    (∀ id, c.shared.db.deadLetters.rows.countP (fun r => r.streamMessageId = id) ≤ 1) ∧
    ∀ row ∈ c.shared.db.deadLetters.rows, ∃ entry ∈ c.shared.deadLetters,
      entry.sourceId = row.streamMessageId := by
  have hrows : ∀ id, c.shared.db.deadLetters.rows.countP (fun r => r.streamMessageId = id) =
      c.shared.db.deadLetters.keys.count id := by
    intro id
    rw [Table.keys, List.count, List.countP_map]
    exact List.countP_congr (fun r _ => by simp)
  refine ⟨fun id hid => ?_, fun id => ?_, fun id => ?_, fun row hrow => ?_⟩
  · obtain ⟨hkey, entry, hentry, hsource⟩ := handlers_discard h hid
    refine ⟨?_, List.countP_pos_iff.mpr ⟨entry, hentry, by simpa using hsource⟩⟩
    rw [hrows]
    exact List.count_eq_one_of_mem c.shared.db.deadLetters.nodup hkey
  · rw [← handlers_append h, List.count, List.countP_map]
    exact List.countP_congr (fun entry _ => by simp)
  · rw [hrows]
    exact List.nodup_iff_count_le_one.mp c.shared.db.deadLetters.nodup id
  · exact handlers_record h _ (Table.key_mem_keys hrow)

end

/-! ### One worker, two appends -/

/-- The stores after the append of the entry without fields. -/
def appendedOnce : Stores :=
  { (deliveredOnce []).toStores with deadLetters := [deadLetterEntry 0 [] .key] }

/-- The stores after the pending entry is claimed again. -/
def claimedAgain : Stores :=
  { appendedOnce with stream := appendedOnce.stream.autoclaim (fun _ => true) pollCount }

/-- The stores after the second append and the insert. -/
def recordedTwice : Stores :=
  { claimedAgain with
    deadLetters := [deadLetterEntry 0 [] .key, deadLetterEntry 0 [] .key]
    db := { Database.empty with
      deadLetters := (Table.empty.insertOrIgnore (deadLetterRecord 0 [] .key 2)).1 } }

/-- The worker crashes between its append and the insert; after the restart it claims the entry, and
    appends, inserts and acknowledges. -/
theorem appended_twice_run : ∃ t, DiscardedIn t 0 ∧
    Run (handlers Libraries.canonical (fun _ : Unit => onceSettings)) t
      ⟨⟨{ recordedTwice with stream := recordedTwice.stream.ack 0 }, []⟩,
        fun _ => .ok (.handling .read [] 0 [] .returned)⟩ := by
  have hworker : ∀ {s l e s' l'}, WorkerStep Libraries.canonical onceSettings s l e s' l' →
      (handlers Libraries.canonical (fun _ : Unit => onceSettings)).step () s (.ok l) (.worker e) s'
        (.ok l') := fun h => ⟨.worker h, fun h => by cases h⟩
  have hstart : Run (handlers Libraries.canonical (fun _ : Unit => onceSettings)) []
      ⟨Shared.init Unit, fun _ => .ok .idle⟩ := ⟨⟨_, _⟩, ⟨rfl, fun _ => rfl⟩, .refl _⟩
  have hadd : Outside (Shared.init Unit)
      { Shared.init Unit with stream := ConsumerGroup.empty.add [] } := ⟨add_grows _, rfl, rfl⟩
  have hadded := hstart.snoc_single ⟨.outside hadd, fun _ => ⟨rfl, rfl⟩⟩
  have hstarted := hadded.snoc_single (hworker (.start _))
  have hclaimed := hstarted.snoc_single (hworker (.claim _ (fun _ => false)))
  have hread := hclaimed.snoc_single (hworker (.read _))
  have htaken := hread.snoc_single (hworker (.take _ _ 0 [] []))
  have hfirst : advanceTimes Libraries.canonical onceSettings 0 [] 3 .received
      (deliveredOnce []).toStores = .ok (.recording .key 1, appendedOnce) := rfl
  obtain ⟨t, -, hrun⟩ := handling_run hworker 3 htaken hfirst
  have hstopped := hrun.snoc_single (e := .stopped) ⟨.stop () _ _, fun h => by cases h⟩
  have hrestarted := hstopped.snoc_single (hworker (.start _))
  have hreclaimed := hrestarted.snoc_single (hworker (.claim _ (fun _ => true)))
  have hretaken := hreclaimed.snoc_single (hworker (.take _ .read 0 [] []))
  have hsecond : advanceTimes Libraries.canonical onceSettings 0 [] 4 .received claimedAgain =
      .ok (.discarding, recordedTwice) := rfl
  obtain ⟨t', -, hrun'⟩ := handling_run hworker 4 hretaken hsecond
  exact ⟨_, ⟨(), List.mem_append_right _ (List.mem_singleton_self _)⟩,
    hrun'.snoc_single (hworker (.advance (by decide) rfl))⟩

/-- The message is acknowledged, and the dead-letter stream holds two entries for it. -/
theorem dead_letter_appended_twice : ∃ t c,
    Run (handlers Libraries.canonical (fun _ : Unit => onceSettings)) t c ∧ DiscardedIn t 0 ∧
      c.shared.deadLetters.countP (fun entry => entry.sourceId = 0) = 2 := by
  obtain ⟨t, hdiscarded, hrun⟩ := appended_twice_run
  exact ⟨t, _, hrun, hdiscarded, rfl⟩

/-- The same message has one row, and an entry for each append. -/
theorem dead_letters_recorded_twice : ∃ t c,
    Run (handlers Libraries.canonical (fun _ : Unit => onceSettings)) t c ∧
      c.shared.db.deadLetters.rows.countP (fun r => r.streamMessageId = 0) = 1 ∧
      (appendedIds t).count 0 = 2 := by
  obtain ⟨t, hdiscarded, hrun⟩ := appended_twice_run
  have hrecorded := dead_letters_recorded hrun
  exact ⟨t, _, hrun, (hrecorded.1 0 hdiscarded).1, (hrecorded.2.1 0).symm⟩

end FleetPulse
