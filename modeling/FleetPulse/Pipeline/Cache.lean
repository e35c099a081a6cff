import FleetPulse.Pipeline.Fleet

/-! The cached fleet state: a cache-aside copy with a time to live and one key.

    A request that misses reads the table and stores what it read; a worker deletes the key after its
    commit. A list that was read before a commit may be stored after the deletion that follows it,
    and until the key expires or is deleted again such a list is served (`Outdated`). That is the
    only way: every other list a request returns was in the table after the commit. -/

namespace FleetPulse
open Values Interleaving

variable {ι : Type} [DecidableEq ι] {libs : Libraries} {settings : ι → WorkerSettings}

/-- The list was in the table at some moment of these steps. -/
def ReadDuring (libs : Libraries) (settings : ι → WorkerSettings)
    (c₀ : Config ι (Shared ι) Local) (t : List (ι × Event)) (c : Config ι (Shared ι) Local)
    (views : List FleetStateView) : Prop :=
  ∃ t₁ t₂ d, t = t₁ ++ t₂ ∧ Steps (pipeline libs settings) c₀ t₁ d ∧
    Steps (pipeline libs settings) d t₂ c ∧ views = selectFleetState libs d.shared.db

/-- A request that had read the list before `c₀` stores it later, in one of the steps `u`. -/
def Outdated (c₀ : Config ι (Shared ι) Local) (u : List (ι × Event))
    (views : List FleetStateView) : Prop :=
  ∃ k, c₀.loc k = .caching views ∧ (k, Event.stored views) ∈ u

/-! ### Where a list comes from -/

section
variable {i : ι} {s s' : Shared ι} {l l' : Local} {e : Event} {views : List FleetStateView}

/-- A request that is about to store a list has just read it, or was about to store it before. -/
theorem Step.caching (h : Step libs settings i s l e s' l') (hl : l' = .caching views) :
    l = .caching views ∨ (views = selectFleetState libs s.db ∧ e = .loaded views) := by
  cases h with
  | api h => cases h <;> cases hl
  | relay h => cases h <;> cases hl
  | worker h => cases h <;> cases hl
  | reader h => cases h <;> cases hl; exact Or.inr ⟨rfl, rfl⟩
  | expire => exact Or.inl hl
  | stop => cases hl

/-- A list in the cache was there before, or a request has just stored it. -/
theorem Step.cached (h : Step libs settings i s l e s' l') (hc : s'.cache = some views) :
    s.cache = some views ∨ (l = .caching views ∧ e = .stored views) := by
  cases h with
  | api h => cases h <;> exact Or.inl hc
  | relay h => cases h <;> exact Or.inl hc
  | reader h => cases h <;> first | exact Or.inl hc | (cases hc; exact Or.inr ⟨rfl, rfl⟩)
  | expire => cases hc
  | stop => exact Or.inl hc
  | worker h => cases h with
    | @advance _ _ _ _ hd₀ _ _ _ ha =>
      left
      have hcases := advance_cases ha
      cases hd₀ with
      | received => rw [hcases.1] at hc; exact hc
      | processing event =>
        rcases hcases with ⟨db, -, -, rfl⟩ | ⟨_, -, -, -, rfl⟩ <;> exact hc
      | failed _ => rw [hcases.1] at hc; exact hc
      | recording _ _ => rw [hcases.2.2] at hc; exact hc
      | invalidating => rw [hcases.2] at hc; cases hc
      | deadLettering _ _ | settling | discarding | returned => rw [hcases.2] at hc; exact hc
    | _ => exact Or.inl hc

/-- A list that a request found was in the cache. -/
theorem Step.found (h : Step libs settings i s l e s' l') (hl : l' = .found views) :
    l = .found views ∨ s.cache = some views := by
  cases h with
  | api h => cases h <;> cases hl
  | relay h => cases h <;> cases hl
  | worker h => cases h <;> cases hl
  | reader h => cases h with
    | hit hcache => cases hl; exact Or.inr hcache
    | _ => cases hl
  | expire => exact Or.inl hl
  | stop => cases hl

/-- A list that a request returns it found, or read itself. -/
theorem Step.returning (h : Step libs settings i s l e s' l') (hl : l' = .returning views) :
    l = .returning views ∨ l = .found views ∨ l = .caching views := by
  cases h with
  | api h => cases h <;> cases hl
  | relay h => cases h <;> cases hl
  | worker h => cases h <;> cases hl
  | reader h => cases h with
    | answerHit => cases hl; exact Or.inr (Or.inl rfl)
    | store | unstored => cases hl; exact Or.inr (Or.inr rfl)
    | _ => cases hl
  | expire => exact Or.inl hl
  | stop => cases hl

theorem Step.returned (h : Step libs settings i s l (.returned views) s' l') :
    l = .returning views := by
  cases h with
  | api h => cases h
  | relay h => cases h
  | worker h => cases h
  | reader h => cases h; rfl

end

/-! ### The invariant -/

section
variable {c₀ c₁ c c' : Config ι (Shared ι) Local} {t u : List (ι × Event)}
  {views : List FleetStateView}

theorem ReadDuring.extend (h : ReadDuring libs settings c₀ t c views)
    (hs : Steps (pipeline libs settings) c u c') :
    ReadDuring libs settings c₀ (t ++ u) c' views := by
  obtain ⟨t₁, t₂, d, rfl, h₁, h₂, hviews⟩ := h
  exact ⟨t₁, t₂ ++ u, d, by simp, h₁, h₂.append hs, hviews⟩

theorem readDuring_now (h : Steps (pipeline libs settings) c₀ t c)
    (hviews : views = selectFleetState libs c.shared.db) :
    ReadDuring libs settings c₀ t c views := ⟨t, [], c, by simp, h, .refl c, hviews⟩

/-- Since `c₀`, what any request is about to store was in the table, unless the request was about to
    store it at `c₀` already. -/
theorem caching_since (h : Steps (pipeline libs settings) c₀ t c) :
    ∀ k views, c.loc k = .caching views →
      ReadDuring libs settings c₀ t c views ∨ c₀.loc k = .caching views := by
  refine h.induct (p := fun t c => ∀ k views, c.loc k = .caching views →
    ReadDuring libs settings c₀ t c views ∨ c₀.loc k = .caching views)
    (fun k views hk => Or.inr hk) ?_
  intro t s loc i e s' l' hsteps ih hstep k views hk
  have hone : Steps (pipeline libs settings) ⟨s, loc⟩ [(i, e)] ⟨s', Function.update loc i l'⟩ :=
    .single hstep
  by_cases hki : k = i
  · subst hki
    rcases Step.caching hstep (by simpa using hk) with hold | ⟨hread, -⟩
    · exact (ih k views hold).imp_left (fun hr => hr.extend hone)
    · exact Or.inl ((readDuring_now hsteps hread).extend hone)
  · exact (ih k views (by simpa [hki] using hk)).imp_left (fun hr => hr.extend hone)

/-- Since the key was deleted, what is in the cache was in the table since `c₀`, unless it is
    outdated. -/
theorem cached_since (h₁ : Steps (pipeline libs settings) c₀ t c₁) (hdel : c₁.shared.cache = none)
    (hu : Steps (pipeline libs settings) c₁ u c) : ∀ views, c.shared.cache = some views →
      ReadDuring libs settings c₀ (t ++ u) c views ∨ Outdated c₀ u views := by
  refine hu.induct (p := fun u c => ∀ views, c.shared.cache = some views →
    ReadDuring libs settings c₀ (t ++ u) c views ∨ Outdated c₀ u views) ?_ ?_
  · intro views hc; rw [hdel] at hc; cases hc
  intro u s loc i e s' l' hsteps ih hstep views hc
  have hone : Steps (pipeline libs settings) ⟨s, loc⟩ [(i, e)] ⟨s', Function.update loc i l'⟩ :=
    .single hstep
  rw [← List.append_assoc]
  rcases Step.cached hstep hc with hold | ⟨hl, rfl⟩
  · refine (ih views hold).imp (fun hr => hr.extend hone) ?_
    rintro ⟨k, hk, hmem⟩
    exact ⟨k, hk, List.mem_append_left _ hmem⟩
  · rcases caching_since (h₁.append hsteps) i views hl with hr | hk
    · exact Or.inl (hr.extend hone)
    · exact Or.inr ⟨i, hk, List.mem_append_right _ (List.mem_singleton_self _)⟩

/-- What a request that began after the deletion of the key works on. -/
structure RequestSince (libs : Libraries) (settings : ι → WorkerSettings)
    (c₀ : Config ι (Shared ι) Local) (t u : List (ι × Event)) (c : Config ι (Shared ι) Local)
    (l : Local) : Prop where
  caching : ∀ views, l = .caching views → ReadDuring libs settings c₀ (t ++ u) c views
  found : ∀ views, l = .found views →
    ReadDuring libs settings c₀ (t ++ u) c views ∨ Outdated c₀ u views
  returning : ∀ views, l = .returning views →
    ReadDuring libs settings c₀ (t ++ u) c views ∨ Outdated c₀ u views

theorem RequestSince.extend {l : Local} {x : ι × Event}
    (h : RequestSince libs settings c₀ t u c l)
    (hone : Steps (pipeline libs settings) c [x] c') :
    RequestSince libs settings c₀ t (u ++ [x]) c' l := by
  have hshown : ∀ views, ReadDuring libs settings c₀ (t ++ u) c views ∨ Outdated c₀ u views →
      ReadDuring libs settings c₀ (t ++ (u ++ [x])) c' views ∨ Outdated c₀ (u ++ [x]) views := by
    rintro views (hr | ⟨k, hk, hmem⟩)
    · rw [← List.append_assoc]; exact Or.inl (hr.extend hone)
    · exact Or.inr ⟨k, hk, List.mem_append_left _ hmem⟩
  refine ⟨fun views hl => ?_, fun views hl => hshown views (h.found views hl),
    fun views hl => hshown views (h.returning views hl)⟩
  rw [← List.append_assoc]
  exact (h.caching views hl).extend hone

/-- A request that began after the deletion of the key only ever works on lists that were in the
    table since `c₀`, or on outdated ones. -/
theorem request_since {c₂ : Config ι (Shared ι) Local} {u' : List (ι × Event)} {j : ι}
    (h₁ : Steps (pipeline libs settings) c₀ t c₁) (hdel : c₁.shared.cache = none)
    (h₂ : Steps (pipeline libs settings) c₁ u c₂) (hbegin : c₂.loc j = .idle)
    (h₃ : Steps (pipeline libs settings) c₂ u' c) :
    RequestSince libs settings c₀ t (u ++ u') c (c.loc j) := by
  refine h₃.induct (p := fun u' c => RequestSince libs settings c₀ t (u ++ u') c (c.loc j)) ?_ ?_
  · rw [hbegin]
    exact { caching := fun _ h => (nomatch h), found := fun _ h => (nomatch h),
            returning := fun _ h => (nomatch h) }
  intro u' s loc i e s' l' hsteps ih hstep
  have hone : Steps (pipeline libs settings) ⟨s, loc⟩ [(i, e)] ⟨s', Function.update loc i l'⟩ :=
    .single hstep
  have hext := ih.extend hone
  rw [List.append_assoc] at hext
  by_cases hj : j = i
  · subst hj
    simp only [Function.update_self]
    refine ⟨fun views hl => ?_, fun views hl => ?_, fun views hl => ?_⟩
    · rcases Step.caching hstep hl with hold | ⟨hread, -⟩
      · exact hext.caching views hold
      · have hr := (readDuring_now ((h₁.append h₂).append hsteps) hread).extend hone
        simpa using hr
    · rcases Step.found hstep hl with hold | hcache
      · exact hext.found views hold
      · rcases cached_since h₁ hdel (h₂.append hsteps) views hcache with hr | ⟨k, hk, hmem⟩
        · exact Or.inl (by simpa using hr.extend hone)
        · exact Or.inr ⟨k, hk, by rw [← List.append_assoc]; exact List.mem_append_left _ hmem⟩
    · rcases Step.returning hstep hl with hold | hold | hold
      · exact hext.returning views hold
      · exact hext.found views hold
      · exact Or.inl (hext.caching views hold)
  · simpa [hj] using hext

end

/-! ### Coherence -/

/-- The list shows the batch of the event, or a batch of the same agent that was processed after
    it. -/
def Reflects (libs : Libraries) (db : Database) (event : QueueEvent)
    (views : List FleetStateView) : Prop :=
  ∃ batch earlier later shown, eventBatch libs db event.eventId = some batch ∧
    processedBatches libs db = earlier ++ batch :: later ∧ shown ∈ batch :: later ∧
    shown.agentId = batch.agentId ∧ fleetStateView (fleetStateOf shown) ∈ views

theorem StateMirrors.reflects {db : Database} (hm : StateMirrors libs db) {event : QueueEvent}
    (hevent : event.eventId ∈ db.processedEvents.keys) :
    Reflects libs db event (selectFleetState libs db) := by
  obtain ⟨r, hr, hid⟩ := Table.mem_keys.mp hevent
  obtain ⟨batch, hbatch⟩ := Option.isSome_iff_exists.mp (hm.backed r hr)
  rw [hid] at hbatch
  have hmem : batch ∈ processedBatches libs db :=
    List.mem_filterMap.mpr ⟨r, hr, by rw [hid]; exact hbatch⟩
  obtain ⟨earlier, later, hsplit⟩ := List.append_of_mem hmem
  obtain ⟨shown, hshown⟩ := LastWrite.exists_last TelemetryBatch.agentId hmem rfl
  have hfind := congrFun hm.state batch.agentId
  rw [hshown] at hfind
  refine ⟨batch, earlier, later, shown, hbatch, hsplit,
    LastWrite.last_mem_of_append (hsplit ▸ hshown), (LastWrite.mem_of_last hshown).2, ?_⟩
  exact mem_selectFleetState.mpr ⟨_, Table.mem_of_find? hfind, rfl⟩

/-- After its commit an event is in `processed_events`. -/
theorem Step.event_processed {i : ι} {s s' : Shared ι} {l l' : Local} {id : ℕ} {event : QueueEvent}
    (h : Step libs settings i s l (.advanced id (.processing event) .invalidating) s' l') :
    event.eventId ∈ s'.db.processedEvents.keys := by
  rcases processEvent_cases (Step.committed h) with
    ⟨hmem, hdb⟩ | ⟨_, _, _, -, -, -, hrows, -, hdb⟩
  · rw [hdb]; exact hmem
  · rw [hdb]; simp [Table.keys, hrows]

theorem Step.deleted {i : ι} {s s' : Shared ι} {l l' : Local} {id : ℕ}
    (h : Step libs settings i s l (.advanced id .invalidating .settling) s' l') :
    s'.cache = none := by
  cases h with
  | api h => cases h
  | relay h => cases h
  | reader h => cases h
  | worker h => cases h with
    | advance _ ha => rw [(advance_cases ha).2]

theorem Step.requested {i : ι} {s s' : Shared ι} {l l' : Local}
    (h : Step libs settings i s l .requested s' l') : l = .idle := by
  cases h with
  | api h => cases h
  | relay h => cases h
  | worker h => cases h
  | reader h => cases h; rfl

/-- What a request is about to store it has read. -/
theorem loaded_of_caching {t : List (ι × Event)} {c : Config ι (Shared ι) Local}
    (h : Run (pipeline libs settings) t c) : ∀ k views, c.loc k = .caching views →
      (k, Event.loaded views) ∈ t := by
  have hall := h.outline (I := fun _ _ => True)
    (L := fun k t _ l => ∀ views, l = .caching views → (k, Event.loaded views) ∈ t) trivial ?_ ?_ ?_
  · exact hall.2
  · rintro k l rfl views hl; cases hl
  · intro t s loc i e s' l' _ _ hi hs
    refine ⟨trivial, fun views hl => ?_⟩
    rcases Step.caching hs hl with hold | ⟨-, rfl⟩
    · exact List.mem_append_left _ (hi views hold)
    · exact List.mem_append_right _ (List.mem_singleton_self _)
  · exact fun t s loc i e s' l' j _ _ _ _ _ hj views hl => List.mem_append_left _ (hj views hl)

/-- COHERENT: a request for the fleet state that begins after a worker has committed an event and
    deleted the key returns a list in the order of the agents that was in the table at some moment of
    the run; it was in the table after the commit, and shows the event's batch or a later one of that
    agent, unless a request had read it before the commit and stores it after the deletion. -/
theorem fleet_list_coherent {t₀ t₁ t₂ t₃ : List (ι × Event)} {c : Config ι (Shared ι) Local}
    {i j : ι} {id : ℕ} {event : QueueEvent} {views : List FleetStateView}
    (h : Run (pipeline libs settings)
      (t₀ ++ (i, .advanced id (.processing event) .invalidating) :: t₁ ++
        (i, .advanced id .invalidating .settling) :: t₂ ++ (j, .requested) :: t₃ ++
        [(j, .returned views)]) c) :
    views.Pairwise (fun a b => libs.collate a.agentId b.agentId = true) ∧
    (∃ t d t', Run (pipeline libs settings) t d ∧ Steps (pipeline libs settings) d t' c ∧
      views = selectFleetState libs d.shared.db) ∧
    ((∃ k, (k, Event.loaded views) ∈ t₀ ∧ (k, Event.stored views) ∈ t₂ ++ (j, .requested) :: t₃) ∨
      ∃ t d t', t ++ t' = t₁ ++ (i, .advanced id .invalidating .settling) :: t₂ ++
          (j, .requested) :: t₃ ++ [(j, .returned views)] ∧
        Run (pipeline libs settings)
          (t₀ ++ (i, .advanced id (.processing event) .invalidating) :: t) d ∧
        Steps (pipeline libs settings) d t' c ∧
        views = selectFleetState libs d.shared.db ∧ Reflects libs d.shared.db event views) := by
  obtain ⟨s₃, loc₃, s₃', l₃', hrun, hreturned, rfl⟩ := h.exists_before
  have hlast := Steps.single hreturned
  have hreturning := Step.returned hreturned
  -- the moments of the request, of the deletion and of the commit
  obtain ⟨c₂, hrun, hrequest⟩ := hrun.split
  have hbegin : c₂.loc j = .idle := by
    obtain ⟨_, _, hstep, -⟩ := hrequest.exists_after
    exact Step.requested hstep
  have hinitial := hrun
  obtain ⟨c₁, hrun, hdelete⟩ := hrun.split
  obtain ⟨s₂, l₂, hdeleted, hafter⟩ := hdelete.exists_after
  obtain ⟨c₀, hrun, hcommit⟩ := hrun.split
  obtain ⟨s₁, l₁, hcommitted, hbetween⟩ := hcommit.exists_after
  have hdeletion := hbetween.append (.single hdeleted)
  have hcommitRun := Run.snoc hrun hcommitted
  have hprocessed : event.eventId ∈ s₁.db.processedEvents.keys := Step.event_processed hcommitted
  -- the list as seen from the start of the run, where nothing was cached
  obtain ⟨c, ⟨hinit, hidle⟩, hbefore⟩ := hinitial
  have hseen := (request_since (.refl c) (by rw [hinit]; rfl) hbefore hbegin hrequest).returning
    views hreturning
  rcases hseen with ⟨t, t', d, -, hd, hd', hviews⟩ | ⟨k, hk, -⟩
  swap
  · rw [hidle k] at hk; cases hk
  refine ⟨hviews ▸ selectFleetState_sorted libs d.shared.db,
    ⟨t, d, _, ⟨c, ⟨hinit, hidle⟩, hd⟩, hd'.append hlast, hviews⟩, ?_⟩
  -- and as seen from the commit
  rcases (request_since hdeletion (Step.deleted hdeleted) hafter hbegin hrequest).returning views
    hreturning with ⟨t, t', d, ht, hd, hd', hviews⟩ | ⟨k, hk, hstored⟩
  · refine Or.inr ⟨t, d, _, ?_, ?_, hd'.append hlast, hviews, ?_⟩
    · rw [← List.append_assoc, ← ht]; simp
    · rw [List.append_cons]; exact hcommitRun.extend hd
    · rw [hviews]
      exact (stateMirrors_run (hcommitRun.extend hd)).reflects
        ((steps_grow hd).processed hprocessed)
  · refine Or.inl ⟨k, ?_, hstored⟩
    rcases List.mem_append.mp (loaded_of_caching hcommitRun k views hk) with hmem | hmem
    · exact hmem
    · cases List.mem_singleton.mp hmem

/-- The process `true` ingests, publishes and reads a batch; `false` asks for the fleet state with
    the actions `before`; `true` handles the entry; `false` goes on with the actions `after`. -/
def askingActions (before after : List Action) : List (Bool × Action) :=
  (ingestActions olderBatch 5 (uniformId 3) ++
    publishActions [outboxEvent 5 (uniformId 3) "request" olderBatch] ++ readActions).map
      (fun a => (true, a)) ++ before.map (fun a => (false, a)) ++
    handleActions.map (fun a => (true, a)) ++ after.map (fun a => (false, a))

def olderEvent : QueueEvent := queueEvent (outboxEvent 5 (uniformId 3) "request" olderBatch)

/-- The list that shows `olderBatch`. -/
def olderViews : List FleetStateView := [fleetStateView (fleetStateOf olderBatch)]

/-- A request after the acknowledgement shows the batch. -/
theorem fleet_list_coherent_fresh :
    ∃ t₀ t₂ c, Run (pipeline Libraries.canonical (fun _ : Bool => smallSettings))
        (t₀ ++ (true, .advanced 0 (.processing olderEvent) .invalidating) :: [] ++
          (true, .advanced 0 .invalidating .settling) :: t₂ ++ (false, .requested) ::
          [(false, .missed), (false, .loaded olderViews), (false, .stored olderViews)] ++
          [(false, .returned olderViews)]) c ∧
      olderViews.Pairwise (fun a b => Libraries.canonical.collate a.agentId b.agentId = true) := by
  have hrun : (schedule Libraries.canonical (fun _ : Bool => smallSettings)
      (askingActions [] [.request, .fail, .go, .go, .go]) [] (initial Bool)).any (fun r => decide
        (r.1 = r.1.take 13 ++ (true, .advanced 0 (.processing olderEvent) .invalidating) :: [] ++
          (true, .advanced 0 .invalidating .settling) :: (r.1.drop 15).take 2 ++
          (false, .requested) ::
          [(false, .missed), (false, .loaded olderViews), (false, .stored olderViews)] ++
          [(false, .returned olderViews)])) = true := by
    decide +kernel
  obtain ⟨t, c, hrun, hcheck⟩ := exists_run hrun
  have ht : t = _ := of_decide_eq_true hcheck
  rw [ht] at hrun
  exact ⟨_, _, c, hrun, (fleet_list_coherent hrun).1⟩

/-- A request that read the empty table before the commit stores it after the deletion, and a request
    that begins after the acknowledgement returns it. -/
theorem fleet_list_outdated :
    ∃ t₀ t₂ c, Run (pipeline Libraries.canonical (fun _ : Bool => smallSettings))
        (t₀ ++ (true, .advanced 0 (.processing olderEvent) .invalidating) :: [] ++
          (true, .advanced 0 .invalidating .settling) :: t₂ ++ (false, .requested) ::
          [(false, .hit), (false, .counted)] ++ [(false, .returned [])]) c ∧
      (true, .advanced 0 .settling .returned) ∈ t₂ ∧
      c.shared.db.fleetState.rows = [fleetStateOf olderBatch] := by
  have hrun : (schedule Libraries.canonical (fun _ : Bool => smallSettings)
      (askingActions [.request, .fail, .go] [.go, .go, .request, .go, .go, .go]) []
      (initial Bool)).any (fun r => decide
        (r.1 = r.1.take 16 ++ (true, .advanced 0 (.processing olderEvent) .invalidating) :: [] ++
          (true, .advanced 0 .invalidating .settling) :: (r.1.drop 18).take 4 ++
          (false, .requested) :: [(false, .hit), (false, .counted)] ++ [(false, .returned [])] ∧
        (true, .advanced 0 .settling .returned) ∈ (r.1.drop 18).take 4 ∧
        r.2.shared.db.fleetState.rows = [fleetStateOf olderBatch])) = true := by
    decide +kernel
  obtain ⟨t, c, hrun, hcheck⟩ := exists_run hrun
  obtain ⟨ht, hacked, hrows⟩ := of_decide_eq_true hcheck
  rw [show t = _ from ht] at hrun
  exact ⟨_, _, c, hrun, hacked, hrows⟩

end FleetPulse
