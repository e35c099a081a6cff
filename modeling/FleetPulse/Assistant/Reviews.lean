import FleetPulse.Assistant.Registry
import FleetPulse.Lib.Progress

/-! What a reviewer is answered, and that every call of the assistant can return.

    `POST /v1/reviews` answers with the receipt, or turns the exceptions of `review` into 404 and 409.
    Which of the three it is follows from what had happened when the call took the lock: the proposals
    registered until then, and the receipts given.

        registered:  ········▕ k₁ k₂ … kₙ ▏        n = registry_limit
            404 ◀── forgotten    known ──▶ 200 the first time, 409 from then on

    A call waits for nothing but the lock, and whoever is inside can go on until it leaves. -/

namespace FleetPulse
open Interleaving

/-- `str(exc)`. -/
def ReviewError.detail : ReviewError → String
  | .unknownProposal => "analysis/proposal pair was not generated here"
  | .duplicateReview => "proposal already has a recorded decision"

/-- The status of the `HTTPException`. -/
def ReviewError.statusCode : ReviewError → ℕ
  | .unknownProposal => 404
  | .duplicateReview => 409

/-- What `POST /v1/reviews` answers. -/
inductive ReviewAnswer where
  | receipt (receipt : ReviewReceipt)
  | problem (statusCode : ℕ) (detail : String)

/-- The answer of the route, when `review` ends with the step. -/
def CallEvent.answer? : CallEvent → Option ReviewAnswer
  | .reviewed receipt => some (.receipt receipt)
  | .raised error => some (.problem error.statusCode error.detail)
  | _ => none

section
variable {ι : Type}

/-- The proposals registered last, as many as the registry keeps. -/
def recentKeys (limit : ℕ) (t : List (ι × CallEvent)) : List ProposalKey :=
  (registeredKeys t).drop ((registeredKeys t).length - limit)

/-- The answer that the history calls for. -/
inductive Decided (limit : ℕ) (t : List (ι × CallEvent)) (request : ReviewRequest) :
    ReviewAnswer → Prop
  | receipt {reviewId reviewedAt} : request.key ∈ recentKeys limit t → receipts request.key t = 0 →
      Decided limit t request (.receipt (request.receipt reviewId reviewedAt))
  | duplicate : request.key ∈ recentKeys limit t → receipts request.key t = 1 →
      Decided limit t request (.problem 409 "proposal already has a recorded decision")
  | unknown : request.key ∉ recentKeys limit t →
      Decided limit t request (.problem 404 "analysis/proposal pair was not generated here")

/-- A call under review took the lock before, and has had it for itself since. -/
def Reviewing (i : ι) (t : List (ι × CallEvent)) : CallPoint → Prop
  | .reviewing request => ∃ t₁ t₂, t = t₁ ++ (i, .locked request) :: t₂ ∧
      ∀ x ∈ t₂, x.1 ≠ i ∧ x.2.registeredKey = none ∧ x.2.receiptKey = none
  | _ => True

variable {service : AssistantService} {t t₁ t₂ : List (ι × CallEvent)} {s s' : AssistantState ι}
  {i j : ι} {l l' : CallPoint} {e : CallEvent}

/-! ### The answer -/

theorem CallStep.locks (h : CallStep service i s l e s' l') : Reviewing i (t ++ [(i, e)]) l' := by
  cases h with
  | enter => exact ⟨t, [], rfl, by simp⟩
  | _ => trivial

theorem Reviewing.append (h : Reviewing j t l) (hne : i ≠ j) (hkey : e.registeredKey = none)
    (hreceipt : e.receiptKey = none) : Reviewing j (t ++ [(i, e)]) l := by
  cases l with
  | reviewing request =>
    obtain ⟨t₁, t₂, rfl, hquiet⟩ := h
    refine ⟨t₁, t₂ ++ [(i, e)], by simp, fun x hx => ?_⟩
    rcases List.mem_append.mp hx with hx | hx
    · exact hquiet x hx
    · obtain rfl := List.mem_singleton.mp hx
      exact ⟨hne, hkey, hreceipt⟩
  | _ => trivial

/-- What is neither registered nor reviewed leaves the history as it was. -/
theorem history_of_quiet (t₁ : List (ι × CallEvent)) (request : ReviewRequest)
    (hquiet : ∀ x ∈ t₂, x.1 ≠ i ∧ x.2.registeredKey = none ∧ x.2.receiptKey = none) :
    registeredKeys (t₁ ++ (i, .locked request) :: t₂) = registeredKeys t₁ ∧
    ∀ key, receipts key (t₁ ++ (i, .locked request) :: t₂) = receipts key t₁ := by
  constructor
  · rw [registeredKeys, registeredKeys, List.filterMap_append, List.filterMap_cons]
    have hnone : t₂.filterMap (fun x => x.2.registeredKey) = [] :=
      List.filterMap_eq_nil_iff.mpr (fun x hx => (hquiet x hx).2.1)
    change t₁.filterMap _ ++ t₂.filterMap (fun x => x.2.registeredKey) = _
    rw [hnone, List.append_nil]
  · intro key
    have hzero : receipts key t₂ = 0 :=
      List.countP_eq_zero.mpr (fun x hx => by simp [(hquiet x hx).2.2])
    rw [receipts, List.countP_append, List.countP_cons]
    simpa [CallEvent.receiptKey, receipts] using hzero

/-- The three ways in which `review` ends. -/
theorem CallStep.decided {answer : ReviewAnswer} (hsound : RegistrySound service t s)
    (hl : callAt service i t s l) (hlocked : Reviewing i t l)
    (h : CallStep service i s l e s' l') (hanswer : e.answer? = some answer) :
    ∃ t₁ t₂ request, t = t₁ ++ (i, .locked request) :: t₂ ∧ (∀ x ∈ t₂, x.1 ≠ i) ∧
      Decided service.registryLimit t₁ request answer := by
  have hreviewing : ∃ request, l = .reviewing request := by
    cases h with
    | unknown | duplicate | record => exact ⟨_, rfl⟩
    | _ => cases hanswer
  obtain ⟨request, rfl⟩ := hreviewing
  obtain ⟨t₁, t₂, rfl, hquiet⟩ := hlocked
  obtain ⟨hkeys, hreceipts⟩ := history_of_quiet t₁ request hquiet
  have hrecent : s.registry.keys = recentKeys service.registryLimit t₁ := by
    rw [hsound.keys_eq hl.2.1, hkeys, recentKeys]
  refine ⟨t₁, t₂, request, rfl, fun x hx => (hquiet x hx).1, ?_⟩
  cases h with
  | unknown hkey =>
    cases hanswer
    exact .unknown (hrecent ▸ hkey)
  | duplicate hkey =>
    cases hanswer
    have hmem := Table.key_mem_keys hkey
    have hsome : receipts request.key (t₁ ++ (i, .locked request) :: t₂) ≠ 0 :=
      (hsound.reviewed _ hkey).not.mp (by simp)
    have honce := hsound.once request.key
    rw [hreceipts] at hsome honce
    exact .duplicate (hrecent ▸ hmem) (by omega)
  | record reviewId reviewedAt hkey =>
    cases hanswer
    have hmem := Table.key_mem_keys hkey
    have hnone := (hsound.reviewed _ hkey).mp rfl
    rw [hreceipts] at hnone
    exact .receipt (hrecent ▸ hmem) hnone

/-! ### The lock -/

theorem CallStep.inside (h : CallStep service i s l e s' l') (hl : s.lock = some i → l.holds = true)
    (hlock : s'.lock = some i) : l'.holds = true := by
  cases h with
  | lock | insert | inserted | evict | enter => rfl
  | ask | abstain | refuse | conclude | request => exact absurd (hl hlock) (by simp [CallPoint.holds])
  | finish | unknown | duplicate | record => cases hlock

theorem CallStep.lock_other (h : CallStep service i s l e s' l') (hne : j ≠ i)
    (hlock : s'.lock = some j) : s.lock = some j := by
  cases h with
  | lock | enter => exact absurd (Option.some.inj hlock).symm hne
  | finish | unknown | duplicate | record => cases hlock
  | _ => exact hlock

section
variable [DecidableEq ι] {c : Config ι (AssistantState ι) CallPoint} {loc : ι → CallPoint}
  {E : ι → CallEvent → Prop}

theorem reviewing_run (h : Run (assistant service) t c) : ∀ i, Reviewing i t (c.loc i) := by
  refine (Run.outline (I := fun _ _ => True) (L := fun i t _ l => Reviewing i t l) trivial
    ?_ ?_ ?_ h).2
  · rintro i l rfl
    trivial
  · exact fun t s loc i e s' l' _ _ _ hstep => ⟨trivial, hstep.locks⟩
  · intro t s loc i e s' l' j hrun _ _ hstep hne hj
    obtain ⟨-, hcalls⟩ := assistant_run hrun
    cases hl : loc j with
    | reviewing request =>
      have hlock : s.lock = some j := callAt_lock (hcalls j) (by simp [hl, CallPoint.holds])
      obtain ⟨-, -, hkey, hreceipt⟩ := CallStep.excluded hstep (hcalls i) hlock hne
      rw [hl] at hj
      exact hj.append hne.symm hkey hreceipt
    | _ => trivial

/-- Whoever has the lock is inside: no call returns or raises with it. -/
theorem inside_run (h : Run (assistant service) t c) (hlock : c.shared.lock = some i) :
    (c.loc i).holds = true := by
  refine (Run.outline (I := fun _ _ => True)
    (L := fun i _ s l => s.lock = some i → l.holds = true) trivial ?_ ?_ ?_ h).2 i hlock
  · intro i l _ hnone
    cases hnone
  · exact fun t s loc i e s' l' _ _ hL hstep => ⟨trivial, hstep.inside hL⟩
  · exact fun t s loc i e s' l' j _ _ _ hstep hne hj hlock => hj (hstep.lock_other hne hlock)

/-- The call is over and the lock is free; the others are where they were. -/
def Returned (loc : ι → CallPoint) (i : ι) (c : Config ι (AssistantState ι) CallPoint) : Prop :=
  ∃ s', c = solo loc i s' .idle ∧ s'.lock = none

/-- The eviction loop ends. -/
theorem canReach_evicted (hallowed : ∀ e, E i e) {response : AnalysisResponse} :
    CanReach (assistant service) E (solo loc i s (.evicting response)) (Returned loc i) := by
  induction hn : s.registry.rows.length generalizing s with
  | zero => exact .own (.finish (by omega)) (hallowed _) (.here ⟨_, rfl, rfl⟩)
  | succ n ih =>
    by_cases hfull : service.registryLimit < s.registry.rows.length
    · refine .own (.evict hfull) (hallowed _) (ih ?_)
      simp [Registry.pop, hn]
    · exact .own (.finish hfull) (hallowed _) (.here ⟨_, rfl, rfl⟩)

/-- The loop over the proposals ends. -/
theorem canReach_inserted (hallowed : ∀ e, E i e) {response : AnalysisResponse}
    {rest : List RemediationProposal} :
    CanReach (assistant service) E (solo loc i s (.inserting response rest)) (Returned loc i) := by
  induction rest generalizing s with
  | nil => exact .own .inserted (hallowed _) (canReach_evicted hallowed)
  | cons proposal rest ih => exact .own .insert (hallowed _) ih

/-- Each of the three branches of `review` leaves the lock. -/
theorem canReach_reviewed (hallowed : ∀ e, E i e) {request : ReviewRequest} :
    CanReach (assistant service) E (solo loc i s (.reviewing request)) (Returned loc i) := by
  by_cases hkey : request.key ∈ s.registry.keys
  · obtain ⟨⟨key, receipt⟩, hentry, rfl⟩ := Table.mem_keys.mp hkey
    cases receipt with
    | none =>
      have hrecord : CallStep service i s (.reviewing request) _ _ .idle :=
        .record "" ⟨1, 1, 1, 0, 0, 0, 0, none, by decide⟩ hentry
      exact .own hrecord (hallowed _) (.here ⟨_, rfl, rfl⟩)
    | some receipt => exact .own (.duplicate hentry) (hallowed _) (.here ⟨_, rfl, rfl⟩)
  · exact .own (.unknown hkey) (hallowed _) (.here ⟨_, rfl, rfl⟩)

/-- Whoever is inside can go on until it leaves. -/
theorem canReach_left (hallowed : ∀ e, E i e) (hl : (c.loc i).holds = true) :
    CanReach (assistant service) E c (Returned c.loc i) := by
  refine .of_solo i (fun l hloc => ?_)
  rw [hloc] at hl
  cases l with
  | inserting => exact canReach_inserted hallowed
  | evicting => exact canReach_evicted hallowed
  | reviewing => exact canReach_reviewed hallowed
  | _ => cases hl

/-- Outside, with the lock free: the provider may raise at least. -/
theorem canReach_returned (hallowed : ∀ e, E i e) (hfree : c.shared.lock = none)
    (hl : (c.loc i).holds = false) : CanReach (assistant service) E c (Returned c.loc i) := by
  refine .of_solo i (fun l hloc => ?_)
  rw [hloc] at hl
  cases l with
  | idle => exact .here ⟨_, rfl, hfree⟩
  | asking analysisId request =>
    obtain ⟨response, hraised⟩ : ∃ response, service.conclude analysisId
        (service.prepare request).2.1 (service.prepare request).2.2 (.raised "TimeoutError") =
          .ok (response, false) := ⟨_, rfl⟩
    exact .own (.refuse hraised) (hallowed _) (.here ⟨_, rfl, hfree⟩)
  | registering response => exact .own (.lock hfree) (hallowed _) (canReach_inserted hallowed)
  | waiting request => exact .own (.enter hfree) (hallowed _) (canReach_reviewed hallowed)
  | _ => cases hl

end

end

/-! ### Whole runs -/

section
variable {ι : Type} [DecidableEq ι]

/-- DECIDED REVIEWS: what a call of the route is answered follows from what was registered and
    reviewed when the call took the lock. -/
theorem review_decided (service : AssistantService) {t : List (ι × CallEvent)} {i : ι}
    {e : CallEvent} {answer : ReviewAnswer} {c : Config ι (AssistantState ι) CallPoint}
    (h : Run (assistant service) (t ++ [(i, e)]) c) (hanswer : e.answer? = some answer) :
    ∃ t₁ t₂ request, t = t₁ ++ (i, .locked request) :: t₂ ∧ (∀ x ∈ t₂, x.1 ≠ i) ∧
      Decided service.registryLimit t₁ request answer := by
  obtain ⟨s, loc, s', l', hrun, hstep, rfl⟩ := h.exists_before
  obtain ⟨hsound, hcalls⟩ := assistant_run hrun
  exact CallStep.decided hsound (hcalls i) (reviewing_run hrun i) hstep hanswer

omit [DecidableEq ι] in
theorem review_decided_sample : ∃ t c receipt t₁ t₂ request,
    Run (assistant (ι := Unit) sampleService) (t ++ [((), .reviewed receipt)]) c ∧
    t = t₁ ++ ((), .locked request) :: t₂ ∧
    Decided sampleService.registryLimit t₁ request (.receipt receipt) := by
  obtain ⟨t, c, receipt, hrun, hmem⟩ := sample_reviewed
  obtain ⟨t₁, t₂, s, loc, s', l', -, hbefore, hstep, -⟩ := hrun.exists_step hmem
  obtain ⟨u₁, u₂, request, heq, -, hdecided⟩ :=
    review_decided sampleService (hbefore.snoc hstep) rfl
  exact ⟨t₁, _, receipt, u₁, u₂, request, hbefore.snoc hstep, heq, hdecided⟩

/-- NO DEADLOCK: from every reachable state, every call can return and leave the lock free, by its
    own steps and those of the call that has the lock. -/
theorem calls_return (service : AssistantService) {c : Config ι (AssistantState ι) CallPoint}
    (hc : Reachable (assistant service) c) (i : ι) :
    CanReach (assistant service) (fun j _ => j = i ∨ c.shared.lock = some j) c
      (fun c' => c'.loc i = .idle ∧ c'.shared.lock = none) := by
  obtain ⟨t, hrun⟩ := hc
  obtain ⟨-, hcalls⟩ := assistant_run hrun
  have houtside : c.shared.lock ≠ some i → (c.loc i).holds = false := fun hne => by
    by_contra hin
    exact hne (callAt_lock (hcalls i) (by simpa using hin))
  by_cases hfree : c.shared.lock = none
  · refine CanReach.mono (canReach_returned (fun _ => .inl rfl) hfree (houtside (by simp [hfree]))) ?_
    rintro _ ⟨s', rfl, hleft⟩
    exact ⟨Function.update_self .., hleft⟩
  · obtain ⟨j, hlock⟩ := Option.ne_none_iff_exists'.mp hfree
    refine CanReach.bind (canReach_left (fun _ => .inr hlock) (inside_run hrun hlock)) ?_
    rintro _ ⟨s', rfl, hleft⟩
    by_cases hij : i = j
    · subst hij
      exact .here ⟨Function.update_self .., hleft⟩
    · have hloc : (solo c.loc j s' .idle).loc i = c.loc i := Function.update_of_ne hij ..
      have hstill : ((solo c.loc j s' .idle).loc i).holds = false := by
        rw [hloc]
        exact houtside (by simp [hlock, Ne.symm hij])
      refine CanReach.mono (canReach_returned (fun _ => .inl rfl) hleft hstill) ?_
      rintro _ ⟨s'', rfl, hleft'⟩
      exact ⟨Function.update_self .., hleft'⟩

omit [DecidableEq ι] in
theorem calls_return_sample : ∃ c : Config Unit (AssistantState Unit) CallPoint,
    c.shared.lock = some () ∧ Reachable (assistant sampleService) c ∧
    CanReach (assistant sampleService) (fun j _ => j = () ∨ c.shared.lock = some j) c
      (fun c' => c'.loc () = .idle ∧ c'.shared.lock = none) := by
  have hstart : Run (assistant (ι := Unit) sampleService) [] ⟨⟨.empty, none, []⟩, fun _ => .idle⟩ :=
    ⟨⟨⟨.empty, none, []⟩, fun _ => .idle⟩, ⟨rfl, fun _ => rfl⟩, .refl _⟩
  have hrequest : CallStep sampleService () ⟨.empty, none, []⟩ .idle .internal
      ⟨.empty, none, []⟩ (.waiting sampleReview) := .request
  have hentered := (hstart.snoc_single hrequest).snoc_single (.enter rfl)
  exact ⟨_, rfl, ⟨_, hentered⟩, calls_return sampleService ⟨_, hentered⟩ ()⟩

end

end FleetPulse
