import FleetPulse.Assistant.Boundary
import FleetPulse.Lib.Interleaving

/-! The review registry under any interleaving of `analyze` and `review` calls on one service.

    A call gives way to others where it awaits: at the provider and at the lock. Here it gives way at
    every statement, also inside the lock, and the lock alone keeps the others out; only releasing the
    lock and returning are one step, since nothing is awaited between them.

        analyze:  idle ──▶ asking ──▶ registering ─lock─▶ inserting ⟲ ──▶ evicting ⟲ ──▶ idle
        review:   idle ──▶ waiting ─lock─▶ reviewing ──▶ idle

    A key is registered once, because its analysis id is new; so a receipt that has been evicted with
    its entry is not given again. -/

namespace FleetPulse
open Values Interleaving

/-- The two exceptions of `review`. -/
inductive ReviewError where
  | unknownProposal
  | duplicateReview
  deriving DecidableEq

/-- What a step leaves behind. -/
inductive CallEvent where
  | internal
  | registered (key : ProposalKey)
  | returned (response : AnalysisResponse)
  | locked (request : ReviewRequest)
  | raised (error : ReviewError)
  | reviewed (receipt : ReviewReceipt)

/-- Where a call stands. -/
inductive CallPoint where
  | idle
  | asking (analysisId : String) (request : AnalysisRequest)
  | registering (response : AnalysisResponse)
  | inserting (response : AnalysisResponse) (rest : List RemediationProposal)
  | evicting (response : AnalysisResponse)
  | waiting (request : ReviewRequest)
  | reviewing (request : ReviewRequest)

/-- The call is inside the lock. -/
def CallPoint.holds : CallPoint → Bool
  | .inserting _ _ | .evicting _ | .reviewing _ => true
  | _ => false

/-- The registry, who is inside the lock, and the analysis ids drawn so far, with the process that
    drew them. -/
structure AssistantState (ι : Type) where
  registry : Registry
  lock : Option ι
  issued : List (String × ι)

def ReviewRequest.key (request : ReviewRequest) : ProposalKey :=
  (request.analysisId, request.proposalId)

def ReviewReceipt.key (receipt : ReviewReceipt) : ProposalKey :=
  (receipt.analysisId, receipt.proposalId)

/-- `ReviewReceipt(…)`. -/
def ReviewRequest.receipt (request : ReviewRequest) (reviewId : String) (reviewedAt : DateTime) :
    ReviewReceipt where
  reviewId
  analysisId := request.analysisId
  proposalId := request.proposalId
  reviewer := request.reviewer
  decision := request.decision
  rationale := request.rationale
  reviewedAt

/-- The response of `analyze` to a request without evidence. -/
def AssistantService.withoutEvidence (service : AssistantService) (analysisId : String)
    (request : AnalysisRequest) : AnalysisResponse :=
  service.abstention analysisId (service.prepare request).2.1 (service.prepare request).2.2
    "No evidence was supplied."

section
variable {ι : Type}

/-- The steps of a call. A new analysis id is one that has not been drawn before. -/
inductive CallStep (service : AssistantService) (i : ι) :
    AssistantState ι → CallPoint → CallEvent → AssistantState ι → CallPoint → Prop
  | ask {s analysisId request} (hfresh : analysisId ∉ s.issued.map Prod.fst)
      (hevidence : request.evidence ≠ []) :
      CallStep service i s .idle .internal { s with issued := (analysisId, i) :: s.issued }
        (.asking analysisId request)
  | abstain {s analysisId request} (hfresh : analysisId ∉ s.issued.map Prod.fst)
      (hevidence : request.evidence = []) :
      CallStep service i s .idle (.returned (service.withoutEvidence analysisId request))
        { s with issued := (analysisId, i) :: s.issued } .idle
  | refuse {s analysisId request outcome response}
      (h : service.conclude analysisId (service.prepare request).2.1 (service.prepare request).2.2
        outcome = .ok (response, false)) :
      CallStep service i s (.asking analysisId request) (.returned response) s .idle
  | conclude {s analysisId request outcome response}
      (h : service.conclude analysisId (service.prepare request).2.1 (service.prepare request).2.2
        outcome = .ok (response, true)) :
      CallStep service i s (.asking analysisId request) .internal s (.registering response)
  | lock {s response} (hfree : s.lock = none) :
      CallStep service i s (.registering response) .internal { s with lock := some i }
        (.inserting response response.proposedRemediations)
  | insert {s response proposal rest} :
      CallStep service i s (.inserting response (proposal :: rest))
        (.registered (response.analysisId, proposal.id))
        { s with registry := Registry.set (response.analysisId, proposal.id) none s.registry }
        (.inserting response rest)
  | inserted {s response} :
      CallStep service i s (.inserting response []) .internal s (.evicting response)
  | evict {s response} (hfull : service.registryLimit < s.registry.rows.length) :
      CallStep service i s (.evicting response) .internal
        { s with registry := Registry.pop s.registry } (.evicting response)
  | finish {s response} (hfits : ¬ service.registryLimit < s.registry.rows.length) :
      CallStep service i s (.evicting response) (.returned response) { s with lock := none } .idle
  | request {s request} : CallStep service i s .idle .internal s (.waiting request)
  | enter {s request} (hfree : s.lock = none) :
      CallStep service i s (.waiting request) (.locked request) { s with lock := some i }
        (.reviewing request)
  | unknown {s request} (hkey : request.key ∉ s.registry.keys) :
      CallStep service i s (.reviewing request) (.raised .unknownProposal)
        { s with lock := none } .idle
  | duplicate {s request receipt} (hkey : ⟨request.key, some receipt⟩ ∈ s.registry.rows) :
      CallStep service i s (.reviewing request) (.raised .duplicateReview)
        { s with lock := none } .idle
  | record {s request} (reviewId : String) (reviewedAt : DateTime)
      (hkey : ⟨request.key, none⟩ ∈ s.registry.rows) :
      CallStep service i s (.reviewing request)
        (.reviewed (request.receipt reviewId reviewedAt))
        { s with registry := Registry.set request.key (some (request.receipt reviewId reviewedAt))
                   s.registry,
                 lock := none } .idle

/-- Any number of processes, each of which makes any number of calls. -/
def assistant (service : AssistantService) :
    Program ι (AssistantState ι) CallPoint CallEvent where
  init := ⟨.empty, none, []⟩
  start _ l := l = .idle
  step i s l e s' l' := CallStep service i s l e s' l'

/-! ### Reading a run -/

def CallEvent.registeredKey : CallEvent → Option ProposalKey
  | .registered key => some key
  | _ => none

def CallEvent.receiptKey : CallEvent → Option ProposalKey
  | .reviewed receipt => some receipt.key
  | _ => none

/-- The keys in the order of their registration. -/
def registeredKeys (t : List (ι × CallEvent)) : List ProposalKey :=
  t.filterMap (fun x => x.2.registeredKey)

/-- How many receipts were issued for a key. -/
def receipts (key : ProposalKey) (t : List (ι × CallEvent)) : ℕ :=
  t.countP (fun x => x.2.receiptKey = some key)

/-- Some `analyze` has returned the proposal. -/
def Generated (key : ProposalKey) (t : List (ι × CallEvent)) : Prop :=
  ∃ i response, (i, .returned response) ∈ t ∧ response.analysisId = key.1 ∧
    ∃ proposal ∈ response.proposedRemediations, proposal.id = key.2

theorem registeredKeys_concat (t : List (ι × CallEvent)) (i : ι) (e : CallEvent) :
    registeredKeys (t ++ [(i, e)]) = registeredKeys t ++ e.registeredKey.toList := by
  rw [registeredKeys, registeredKeys, List.filterMap_append]
  cases h : e.registeredKey <;> simp [h]

theorem receipts_concat (key : ProposalKey) (t : List (ι × CallEvent)) (i : ι) (e : CallEvent) :
    receipts key (t ++ [(i, e)]) = receipts key t + if e.receiptKey = some key then 1 else 0 := by
  simp [receipts, List.countP_append, List.countP_singleton]

theorem Generated.append {key : ProposalKey} {t : List (ι × CallEvent)} (h : Generated key t)
    (t' : List (ι × CallEvent)) : Generated key (t ++ t') := by
  obtain ⟨i, response, hmem, hid, hproposal⟩ := h
  exact ⟨i, response, List.mem_append_left _ hmem, hid, hproposal⟩

/-! ### The map -/

namespace Registry
variable {t : Registry} {key : ProposalKey} {receipt : Option ReviewReceipt}

theorem rows_set_of_not_mem (h : key ∉ t.keys) :
    (t.set key receipt).rows = t.rows ++ [⟨key, receipt⟩] := by
  rw [set, Table.upsert, dif_neg h]
  rfl

theorem rows_set_of_mem (h : key ∈ t.keys) :
    (t.set key receipt).rows = t.rows.map (fun e => if e.key = key then { e with receipt } else e) := by
  rw [set, Table.upsert, dif_pos h, Table.rows_updateWhere]
  exact List.map_congr_left (fun e _ => by simp only [decide_eq_true_eq])

theorem keys_set_of_not_mem (h : key ∉ t.keys) : (t.set key receipt).keys = t.keys ++ [key] := by
  rw [Table.keys, rows_set_of_not_mem h, List.map_append]
  rfl

theorem keys_set_of_mem (h : key ∈ t.keys) : (t.set key receipt).keys = t.keys := by
  rw [set, Table.upsert, dif_pos h, Table.keys_updateWhere]

theorem keys_pop : t.pop.keys = t.keys.tail := by
  rw [Table.keys, Table.keys, pop, List.map_tail]

/-- After a receipt is recorded, an entry without one has another key, and was there before. -/
theorem mem_set_of_mem {e : RegistryEntry} (h : key ∈ t.keys) (he : e ∈ (t.set key receipt).rows) :
    (e.key = key ∧ e.receipt = receipt) ∨ (e.key ≠ key ∧ e ∈ t.rows) := by
  rw [rows_set_of_mem h] at he
  obtain ⟨e', he', rfl⟩ := List.mem_map.mp he
  by_cases hkey : e'.key = key
  · rw [if_pos hkey]
    exact Or.inl ⟨hkey, rfl⟩
  · rw [if_neg hkey]
    exact Or.inr ⟨hkey, he'⟩

end Registry

/-! ### Numbered proposals -/

theorem proposalId_injective {i j : ℕ} (h : "proposal-" ++ toString i = "proposal-" ++ toString j) :
    i = j :=
  Nat.repr_injective ((String.append_right_inj _).mp h)

/-- The proposals of a response have different ids. -/
def Numbered (response : AnalysisResponse) : Prop :=
  (response.proposedRemediations.map RemediationProposal.id).Nodup

theorem numbered_respond (service : AssistantService) (analysisId : String)
    (evidence : List EvidenceItem) (count : ℕ) (output : ProviderAnalysis) :
    Numbered (service.respond analysisId evidence count output) := by
  have hids : (service.respond analysisId evidence count output).proposedRemediations.map
      RemediationProposal.id = ((output.proposedRemediations.zipIdx 1).map Prod.snd).map
        (fun i => "proposal-" ++ toString i) := by
    rw [AssistantService.respond, List.map_map, List.map_map]
    rfl
  rw [Numbered, hids, List.zipIdx_map_snd]
  exact List.Nodup.map (fun _ _ h => proposalId_injective h) (List.nodup_range' ..)

/-- What is going to be registered has the id of the call, and different proposal ids. -/
theorem conclude_registers {service : AssistantService} {analysisId : String}
    {evidence : List EvidenceItem} {count : ℕ} {outcome : ProviderOutcome}
    {response : AnalysisResponse}
    (h : service.conclude analysisId evidence count outcome = .ok (response, true)) :
    response.analysisId = analysisId ∧ Numbered response := by
  rcases conclude_cases service analysisId evidence count outcome with
    ⟨_, output, n, _, _, _, _, heq⟩ | ⟨_, n, reason, heq⟩
  · cases heq.symm.trans h
    exact ⟨rfl, numbered_respond ..⟩
  · cases heq.symm.trans h

/-! ### The invariant -/

/-- The keys of a response. -/
def AnalysisResponse.keys (response : AnalysisResponse) : List ProposalKey :=
  response.proposedRemediations.map (fun proposal => (response.analysisId, proposal.id))

/-- The id was drawn by the process, and nothing is registered or reviewed under it. -/
structure Unused (i : ι) (analysisId : String) (t : List (ι × CallEvent))
    (s : AssistantState ι) : Prop where
  issued : (analysisId, i) ∈ s.issued
  unregistered : ∀ key ∈ registeredKeys t, key.1 ≠ analysisId

/-- Inside the lock of `_register`: the keys of the response that come before the rest are the last
    ones registered, all others have been returned, and none of its own has a receipt. -/
structure Inserting (i : ι) (t : List (ι × CallEvent)) (s : AssistantState ι)
    (response : AnalysisResponse) (rest : List RemediationProposal) : Prop where
  lock : s.lock = some i
  issued : (response.analysisId, i) ∈ s.issued
  numbered : Numbered response
  registered : ∃ before done, response.proposedRemediations = done ++ rest ∧
    registeredKeys t = before ++ done.map (fun p => (response.analysisId, p.id)) ∧
    ∀ key ∈ before, key.1 ≠ response.analysisId ∧ Generated key t
  unreviewed : ∀ key : ProposalKey, key.1 = response.analysisId → receipts key t = 0

/-- Where a call stands, as an assertion. -/
def callAt (service : AssistantService) (i : ι) (t : List (ι × CallEvent))
    (s : AssistantState ι) : CallPoint → Prop
  | .idle | .waiting _ => True
  | .asking analysisId _ => Unused i analysisId t s
  | .registering response => Unused i response.analysisId t s ∧ Numbered response
  | .inserting response rest => Inserting i t s response rest
  | .evicting response => Inserting i t s response []
  | .reviewing _ => s.lock = some i ∧ s.registry.rows.length ≤ service.registryLimit ∧
      ∀ key ∈ registeredKeys t, Generated key t

/-- The registry holds the end of the registered keys, and knows the receipts of what it holds. -/
structure RegistrySound (service : AssistantService) (t : List (ι × CallEvent))
    (s : AssistantState ι) : Prop where
  issued : (s.issued.map Prod.fst).Nodup
  drawn : ∀ key ∈ registeredKeys t, key.1 ∈ s.issued.map Prod.fst
  nodup : (registeredKeys t).Nodup
  recent : ∃ k, k ≤ (registeredKeys t).length - service.registryLimit ∧
    s.registry.keys = (registeredKeys t).drop k
  fits : s.lock = none → s.registry.rows.length ≤ service.registryLimit
  reviewed : ∀ e ∈ s.registry.rows, e.receipt = none ↔ receipts e.key t = 0
  once : ∀ key, receipts key t ≤ 1
  known : ∀ key, receipts key t ≠ 0 → key ∈ registeredKeys t
  generated : s.lock = none → ∀ key ∈ registeredKeys t, Generated key t

section
variable {service : AssistantService} {t : List (ι × CallEvent)} {s s' : AssistantState ι}
  {i j : ι} {l l' : CallPoint} {e : CallEvent}

theorem RegistrySound.mem_registered (h : RegistrySound service t s) {key : ProposalKey}
    (hkey : key ∈ s.registry.keys) : key ∈ registeredKeys t := by
  obtain ⟨k, -, hkeys⟩ := h.recent
  rw [hkeys] at hkey
  exact List.mem_of_mem_drop hkey

/-- Exactly the most recent keys, when nobody is inside the lock. -/
theorem RegistrySound.keys_eq (h : RegistrySound service t s)
    (hfits : s.registry.rows.length ≤ service.registryLimit) : s.registry.keys =
      (registeredKeys t).drop ((registeredKeys t).length - service.registryLimit) := by
  obtain ⟨k, hk, hkeys⟩ := h.recent
  have hlength : s.registry.rows.length = (registeredKeys t).length - k := by
    rw [← List.length_drop, ← hkeys, Table.keys, List.length_map]
  rw [hkeys]
  congr 1
  omega

/-- A step outside the lock leaves the registry, the lock and what was registered and reviewed. -/
theorem CallStep.outside (h : CallStep service i s l e s' l') (hl : l.holds = false)
    (hl' : l'.holds = false) : s'.registry = s.registry ∧ s'.lock = s.lock ∧
      e.registeredKey = none ∧ e.receiptKey = none ∧
      (s'.issued = s.issued ∨ ∃ analysisId, analysisId ∉ s.issued.map Prod.fst ∧
        s'.issued = (analysisId, i) :: s.issued) := by
  cases h with
  | ask hfresh => exact ⟨rfl, rfl, rfl, rfl, Or.inr ⟨_, hfresh, rfl⟩⟩
  | abstain hfresh => exact ⟨rfl, rfl, rfl, rfl, Or.inr ⟨_, hfresh, rfl⟩⟩
  | refuse => exact ⟨rfl, rfl, rfl, rfl, Or.inl rfl⟩
  | conclude => exact ⟨rfl, rfl, rfl, rfl, Or.inl rfl⟩
  | request => exact ⟨rfl, rfl, rfl, rfl, Or.inl rfl⟩
  | lock => cases hl'
  | enter => cases hl'
  | insert => cases hl
  | inserted => cases hl
  | evict => cases hl
  | finish => cases hl
  | unknown => cases hl
  | duplicate => cases hl
  | record => cases hl

/-- Taking the lock needs it free and changes nothing else. -/
theorem CallStep.enters (h : CallStep service i s l e s' l') (hl : l.holds = false)
    (hl' : l'.holds = true) : s.lock = none ∧ s' = { s with lock := some i } ∧
      e.registeredKey = none ∧ e.receiptKey = none := by
  cases h with
  | lock hfree => exact ⟨hfree, rfl, rfl, rfl⟩
  | enter hfree => exact ⟨hfree, rfl, rfl, rfl⟩
  | ask => cases hl'
  | abstain => cases hl'
  | refuse => cases hl'
  | conclude => cases hl'
  | request => cases hl'
  | insert => cases hl
  | inserted => cases hl
  | evict => cases hl
  | finish => cases hl
  | unknown => cases hl
  | duplicate => cases hl
  | record => cases hl

/-- Whoever is inside has the lock. -/
theorem callAt_lock (h : callAt service i t s l) (hl : l.holds = true) : s.lock = some i := by
  cases l with
  | inserting => exact h.lock
  | evicting => exact h.lock
  | reviewing => exact h.1
  | idle => cases hl
  | asking => cases hl
  | registering => cases hl
  | waiting => cases hl

/-- The invariant does not depend on the lock being taken, nor on steps that leave no key and no
    receipt behind. -/
theorem RegistrySound.keep (h : RegistrySound service t s) (hregistry : s'.registry = s.registry)
    (hissued : s'.issued = s.issued ∨ ∃ analysisId, analysisId ∉ s.issued.map Prod.fst ∧
      s'.issued = (analysisId, i) :: s.issued)
    (hkey : e.registeredKey = none) (hreceipt : e.receiptKey = none)
    (hlock : s'.lock = none → s.lock = none ∨
      (s.registry.rows.length ≤ service.registryLimit ∧
        ∀ key ∈ registeredKeys t, Generated key (t ++ [(i, e)]))) :
    RegistrySound service (t ++ [(i, e)]) s' := by
  have hkeys : registeredKeys (t ++ [(i, e)]) = registeredKeys t := by
    rw [registeredKeys_concat, hkey]
    exact List.append_nil _
  have hreceipts : ∀ key, receipts key (t ++ [(i, e)]) = receipts key t := fun key => by
    rw [receipts_concat, hreceipt]
    rfl
  constructor
  · rcases hissued with hissued | ⟨analysisId, hfresh, hissued⟩
    · rw [hissued]
      exact h.issued
    · rw [hissued]
      exact List.nodup_cons.mpr ⟨hfresh, h.issued⟩
  · intro key hmem
    rw [hkeys] at hmem
    rcases hissued with hissued | ⟨analysisId, -, hissued⟩
    · rw [hissued]
      exact h.drawn key hmem
    · rw [hissued]
      exact List.mem_cons_of_mem _ (h.drawn key hmem)
  · rw [hkeys]
    exact h.nodup
  · rw [hkeys, hregistry]
    exact h.recent
  · intro hnone
    rw [hregistry]
    exact (hlock hnone).elim h.fits And.left
  · intro entry hentry
    rw [hreceipts]
    rw [hregistry] at hentry
    exact h.reviewed entry hentry
  · intro key
    rw [hreceipts]
    exact h.once key
  · intro key hne
    rw [hreceipts] at hne
    rw [hkeys]
    exact h.known key hne
  · intro hnone key hmem
    rw [hkeys] at hmem
    exact (hlock hnone).elim (fun hfree => (h.generated hfree key hmem).append _)
      (fun hall => hall.2 key hmem)

/-! ### One step -/

theorem Unused.keep {analysisId : String} (h : Unused i analysisId t s)
    (hissued : ∀ x ∈ s.issued, x ∈ s'.issued)
    (hkey : ∀ key, e.registeredKey = some key → key.1 ≠ analysisId) :
    Unused i analysisId (t ++ [(j, e)]) s' := by
  refine ⟨hissued _ h.issued, fun key hmem => ?_⟩
  rw [registeredKeys_concat, List.mem_append, Option.mem_toList] at hmem
  exact hmem.elim (h.unregistered key) (hkey key)

/-- Nothing that is registered later changes what the process inside the lock knows. -/
theorem Inserting.keep {response : AnalysisResponse} {rest : List RemediationProposal}
    (h : Inserting i t s response rest) (hlock : s'.lock = s.lock)
    (hissued : ∀ x ∈ s.issued, x ∈ s'.issued) (hkey : e.registeredKey = none)
    (hreceipt : e.receiptKey = none) : Inserting i (t ++ [(j, e)]) s' response rest := by
  obtain ⟨before, done, hparts, hkeys, hbefore⟩ := h.registered
  refine ⟨hlock.trans h.lock, hissued _ h.issued, h.numbered, ⟨before, done, hparts, ?_, ?_⟩, ?_⟩
  · rw [registeredKeys_concat, hkey, hkeys]
    exact List.append_nil _
  · exact fun key hmem => ⟨(hbefore key hmem).1, (hbefore key hmem).2.append _⟩
  · intro key hid
    rw [receipts_concat, hreceipt, h.unreviewed key hid]
    rfl

/-- One insertion: the key is new, and becomes the last one. -/
theorem insert_sound {response : AnalysisResponse} {proposal : RemediationProposal}
    {rest : List RemediationProposal} (h : RegistrySound service t s)
    (hl : Inserting i t s response (proposal :: rest)) :
    RegistrySound service (t ++ [(i, .registered (response.analysisId, proposal.id))])
        { s with registry := Registry.set (response.analysisId, proposal.id) none s.registry } ∧
      Inserting i (t ++ [(i, .registered (response.analysisId, proposal.id))])
        { s with registry := Registry.set (response.analysisId, proposal.id) none s.registry }
        response rest := by
  obtain ⟨before, done, hparts, hkeys, hbefore⟩ := hl.registered
  have hnew : (response.analysisId, proposal.id) ∉ registeredKeys t := by
    rw [hkeys, List.mem_append, not_or]
    refine ⟨fun hmem => (hbefore _ hmem).1 rfl, fun hmem => ?_⟩
    obtain ⟨p, hp, heq⟩ := List.mem_map.mp hmem
    have hnumbered := hl.numbered
    rw [Numbered, hparts, List.map_append, List.map_cons, List.nodup_append] at hnumbered
    exact hnumbered.2.2 p.id (List.mem_map_of_mem hp) proposal.id (List.mem_cons_self ..)
      (congrArg Prod.snd heq)
  have hnotin : (response.analysisId, proposal.id) ∉ s.registry.keys :=
    fun hmem => hnew (h.mem_registered hmem)
  have hkeys' : registeredKeys (t ++ [(i, .registered (response.analysisId, proposal.id))]) =
      registeredKeys t ++ [(response.analysisId, proposal.id)] := registeredKeys_concat ..
  have hreceipts : ∀ key, receipts key
      (t ++ [(i, .registered (response.analysisId, proposal.id))]) = receipts key t :=
    fun key => receipts_concat ..
  constructor
  · constructor
    · exact h.issued
    · intro key hmem
      rw [hkeys', List.mem_append, List.mem_singleton] at hmem
      rcases hmem with hmem | rfl
      · exact h.drawn key hmem
      · exact List.mem_map_of_mem hl.issued
    · rw [hkeys']
      exact List.nodup_append.mpr ⟨h.nodup, List.nodup_singleton _, fun a ha b hb hab =>
        hnew (List.mem_singleton.mp hb ▸ hab ▸ ha)⟩
    · obtain ⟨k, hk, hdrop⟩ := h.recent
      refine ⟨k, ?_, ?_⟩
      · rw [hkeys', List.length_append]
        omega
      · rw [Registry.keys_set_of_not_mem hnotin, hkeys', hdrop,
          List.drop_append_of_le_length (by omega)]
    · exact fun hfree => absurd (hl.lock.symm.trans hfree) nofun
    · intro entry hentry
      rw [Registry.rows_set_of_not_mem hnotin, List.mem_append, List.mem_singleton] at hentry
      rw [hreceipts]
      rcases hentry with hentry | rfl
      · exact h.reviewed entry hentry
      · exact iff_of_true rfl (hl.unreviewed _ rfl)
    · intro key
      rw [hreceipts]
      exact h.once key
    · intro key hne
      rw [hreceipts] at hne
      rw [hkeys']
      exact List.mem_append_left _ (h.known key hne)
    · exact fun hfree => absurd (hl.lock.symm.trans hfree) nofun
  · refine ⟨hl.lock, hl.issued, hl.numbered, ⟨before, done ++ [proposal], ?_, ?_, ?_⟩, ?_⟩
    · rw [hparts, List.append_assoc]
      rfl
    · rw [hkeys', hkeys, List.append_assoc, List.map_append]
      rfl
    · exact fun key hmem => ⟨(hbefore key hmem).1, (hbefore key hmem).2.append _⟩
    · intro key hid
      rw [hreceipts]
      exact hl.unreviewed key hid

/-- One eviction: the oldest entry goes, and there were more than the limit. -/
theorem evict_sound (h : RegistrySound service t s) (hlock : s.lock ≠ none)
    (hfull : service.registryLimit < s.registry.rows.length) (hkey : e.registeredKey = none)
    (hreceipt : e.receiptKey = none) :
    RegistrySound service (t ++ [(i, e)]) { s with registry := Registry.pop s.registry } := by
  have hsame : RegistrySound service (t ++ [(i, e)]) s :=
    h.keep rfl (Or.inl rfl) hkey hreceipt (fun hfree => Or.inl hfree)
  refine ⟨hsame.issued, hsame.drawn, hsame.nodup, ?_, fun hfree => absurd hfree hlock, ?_,
    hsame.once, hsame.known, fun hfree => absurd hfree hlock⟩
  · obtain ⟨k, hk, hdrop⟩ := hsame.recent
    have hlength : s.registry.rows.length = (registeredKeys (t ++ [(i, e)])).length - k := by
      rw [← List.length_drop, ← hdrop, Table.keys, List.length_map]
    refine ⟨k + 1, by omega, ?_⟩
    rw [Registry.keys_pop, hdrop, List.tail_drop]
  · exact fun entry hentry => hsame.reviewed entry (List.mem_of_mem_tail hentry)

/-- One receipt: the entry had none, so there has been none for its key. -/
theorem record_sound {request : ReviewRequest} {reviewId : String} {reviewedAt : DateTime}
    (h : RegistrySound service t s) (hl : callAt service i t s (.reviewing request))
    (hkey : ⟨request.key, none⟩ ∈ s.registry.rows) :
    RegistrySound service (t ++ [(i, .reviewed (request.receipt reviewId reviewedAt))])
      { s with registry := Registry.set request.key (some (request.receipt reviewId reviewedAt))
                 s.registry,
               lock := none } := by
  have hin : request.key ∈ s.registry.keys := List.mem_map_of_mem hkey
  have hnone : receipts request.key t = 0 := (h.reviewed _ hkey).mp rfl
  have hkeys : registeredKeys (t ++ [(i, .reviewed (request.receipt reviewId reviewedAt))]) =
      registeredKeys t := by
    rw [registeredKeys_concat]
    exact List.append_nil _
  have hreceipts : ∀ key, receipts key
      (t ++ [(i, .reviewed (request.receipt reviewId reviewedAt))]) =
        receipts key t + if request.key = key then 1 else 0 := fun key => by
    rw [receipts_concat]
    congr 1
    exact if_congr Option.some_inj rfl rfl
  constructor
  · exact h.issued
  · rw [hkeys]
    exact h.drawn
  · rw [hkeys]
    exact h.nodup
  · rw [hkeys, Registry.keys_set_of_mem hin]
    exact h.recent
  · intro _
    rw [Registry.rows_set_of_mem hin, List.length_map]
    exact hl.2.1
  · intro entry hentry
    rw [hreceipts]
    rcases Registry.mem_set_of_mem hin hentry with ⟨heq, hreceipt⟩ | ⟨hne, hentry⟩
    · rw [hreceipt, heq, if_pos rfl]
      exact iff_of_false nofun (Nat.succ_ne_zero _)
    · rw [if_neg (Ne.symm hne)]
      exact h.reviewed entry hentry
  · intro key
    rw [hreceipts]
    by_cases heq : request.key = key
    · rw [if_pos heq, ← heq, hnone]
    · rw [if_neg heq]
      exact h.once key
  · intro key hne
    rw [hkeys]
    rw [hreceipts] at hne
    by_cases heq : request.key = key
    · exact heq ▸ h.mem_registered hin
    · rw [if_neg heq] at hne
      exact h.known key hne
  · intro _ key hmem
    rw [hkeys] at hmem
    exact (hl.2.2 key hmem).append _

/-- Everything registered has been returned once the last `analyze` inside the lock returns. -/
theorem Inserting.generated {response : AnalysisResponse} (h : Inserting i t s response []) :
    ∀ key ∈ registeredKeys t, Generated key (t ++ [(i, .returned response)]) := by
  obtain ⟨before, done, hparts, hkeys, hbefore⟩ := h.registered
  intro key hmem
  rw [hkeys, List.mem_append] at hmem
  rcases hmem with hmem | hmem
  · exact (hbefore key hmem).2.append _
  · obtain ⟨p, hp, rfl⟩ := List.mem_map.mp hmem
    refine ⟨i, response, List.mem_append_right _ (List.mem_singleton_self _), rfl, p, ?_, rfl⟩
    rw [hparts, List.append_nil]
    exact hp

/-- What a step of a call does to the invariant and to the call's own assertion. -/
theorem call_own (h : RegistrySound service t s) (hl : callAt service i t s l)
    (hstep : CallStep service i s l e s' l') :
    RegistrySound service (t ++ [(i, e)]) s' ∧ callAt service i (t ++ [(i, e)]) s' l' := by
  cases hstep with
  | ask hfresh hevidence =>
    refine ⟨h.keep rfl (Or.inr ⟨_, hfresh, rfl⟩) rfl rfl Or.inl, List.mem_cons_self .., ?_⟩
    intro key hmem heq
    rw [registeredKeys_concat, List.mem_append] at hmem
    exact hfresh (heq ▸ h.drawn key (hmem.resolve_right nofun))
  | abstain hfresh hevidence =>
    exact ⟨h.keep rfl (Or.inr ⟨_, hfresh, rfl⟩) rfl rfl Or.inl, trivial⟩
  | refuse hconclude => exact ⟨h.keep rfl (Or.inl rfl) rfl rfl Or.inl, trivial⟩
  | conclude hconclude =>
    obtain ⟨hid, hnumbered⟩ := conclude_registers hconclude
    refine ⟨h.keep rfl (Or.inl rfl) rfl rfl Or.inl, ?_, hnumbered⟩
    rw [hid]
    exact Unused.keep hl (fun _ hx => hx) nofun
  | lock hfree =>
    refine ⟨h.keep rfl (Or.inl rfl) rfl rfl nofun, rfl, hl.1.issued, hl.2,
      ⟨registeredKeys t, [], rfl, ?_, ?_⟩, ?_⟩
    · rw [registeredKeys_concat]
      rfl
    · exact fun key hmem => ⟨hl.1.unregistered key hmem, (h.generated hfree key hmem).append _⟩
    · intro key hid
      rw [receipts_concat]
      by_contra hne
      exact hl.1.unregistered key (h.known key (by simpa [CallEvent.receiptKey] using hne)) hid
  | insert => exact insert_sound h hl
  | inserted =>
    exact ⟨h.keep rfl (Or.inl rfl) rfl rfl Or.inl, Inserting.keep hl rfl (fun _ hx => hx) rfl rfl⟩
  | evict hfull =>
    exact ⟨evict_sound h (by rw [hl.lock]; nofun) hfull rfl rfl,
      Inserting.keep hl rfl (fun _ hx => hx) rfl rfl⟩
  | finish hfits =>
    refine ⟨h.keep rfl (Or.inl rfl) rfl rfl ?_, trivial⟩
    exact fun _ => Or.inr ⟨not_lt.mp hfits, Inserting.generated hl⟩
  | request => exact ⟨h.keep rfl (Or.inl rfl) rfl rfl Or.inl, trivial⟩
  | enter hfree =>
    refine ⟨h.keep rfl (Or.inl rfl) rfl rfl nofun, rfl, h.fits hfree, fun key hmem => ?_⟩
    rw [registeredKeys_concat, List.mem_append] at hmem
    exact (h.generated hfree key (hmem.resolve_right nofun)).append _
  | unknown hkey =>
    refine ⟨h.keep rfl (Or.inl rfl) rfl rfl ?_, trivial⟩
    exact fun _ => Or.inr ⟨hl.2.1, fun key hmem => (hl.2.2 key hmem).append _⟩
  | duplicate hkey =>
    refine ⟨h.keep rfl (Or.inl rfl) rfl rfl ?_, trivial⟩
    exact fun _ => Or.inr ⟨hl.2.1, fun key hmem => (hl.2.2 key hmem).append _⟩
  | record reviewId reviewedAt hkey => exact ⟨record_sound h hl hkey, trivial⟩

theorem CallStep.issued_subset (h : CallStep service i s l e s' l') :
    ∀ x ∈ s.issued, x ∈ s'.issued := by
  intro x hx
  cases h with
  | ask => exact List.mem_cons_of_mem _ hx
  | abstain => exact List.mem_cons_of_mem _ hx
  | refuse => exact hx
  | conclude => exact hx
  | lock => exact hx
  | insert => exact hx
  | inserted => exact hx
  | evict => exact hx
  | finish => exact hx
  | request => exact hx
  | enter => exact hx
  | unknown => exact hx
  | duplicate => exact hx
  | record => exact hx

/-- A key is registered under the analysis id that its process has drawn. -/
theorem CallStep.registers {key : ProposalKey} (h : CallStep service i s l e s' l')
    (hl : callAt service i t s l) (hkey : e.registeredKey = some key) : (key.1, i) ∈ s.issued := by
  cases h with
  | insert =>
    cases hkey
    exact hl.issued
  | ask => cases hkey
  | abstain => cases hkey
  | refuse => cases hkey
  | conclude => cases hkey
  | lock => cases hkey
  | inserted => cases hkey
  | evict => cases hkey
  | finish => cases hkey
  | request => cases hkey
  | enter => cases hkey
  | unknown => cases hkey
  | duplicate => cases hkey
  | record => cases hkey

/-- While a process has the lock, the steps of the others leave the registry alone. -/
theorem CallStep.excluded (h : CallStep service i s l e s' l') (hl : callAt service i t s l)
    (hlock : s.lock = some j) (hne : j ≠ i) : s'.registry = s.registry ∧ s'.lock = s.lock ∧
      e.registeredKey = none ∧ e.receiptKey = none := by
  have hout : l.holds = false := by
    by_contra hin
    have hown := callAt_lock hl (by simpa using hin)
    rw [hlock] at hown
    exact hne (Option.some.inj hown)
  have hout' : l'.holds = false := by
    by_contra hin
    have hfree := (h.enters hout (by simpa using hin)).1
    rw [hlock] at hfree
    cases hfree
  obtain ⟨hregistry, hsame, hkey, hreceipt, -⟩ := h.outside hout hout'
  exact ⟨hregistry, hsame, hkey, hreceipt⟩

/-- A step of one call leaves the assertions of the others alone: those outside the lock know only of
    their own analysis id, and those inside it exclude every step that matters. -/
theorem call_stable (h : RegistrySound service t s) (hl : callAt service i t s l)
    (hstep : CallStep service i s l e s' l') (hne : j ≠ i) {m : CallPoint}
    (hm : callAt service j t s m) : callAt service j (t ++ [(i, e)]) s' m := by
  have hunused : ∀ analysisId, Unused j analysisId t s → Unused j analysisId (t ++ [(i, e)]) s' := by
    intro analysisId hunused
    refine hunused.keep hstep.issued_subset (fun key hkey heq => hne ?_)
    have hmine := hstep.registers hl hkey
    have hpair := List.inj_on_of_nodup_map h.issued hmine hunused.issued heq
    exact (congrArg Prod.snd hpair).symm
  cases m with
  | idle => trivial
  | waiting => trivial
  | asking analysisId request => exact hunused analysisId hm
  | registering response => exact ⟨hunused _ hm.1, hm.2⟩
  | inserting response rest =>
    obtain ⟨-, hlock, hkey, hreceipt⟩ := hstep.excluded hl hm.lock hne
    exact Inserting.keep hm hlock hstep.issued_subset hkey hreceipt
  | evicting response =>
    obtain ⟨-, hlock, hkey, hreceipt⟩ := hstep.excluded hl hm.lock hne
    exact Inserting.keep hm hlock hstep.issued_subset hkey hreceipt
  | reviewing request =>
    obtain ⟨hregistry, hlock, hkey, -⟩ := hstep.excluded hl hm.1 hne
    refine ⟨hlock.trans hm.1, by rw [hregistry]; exact hm.2.1, fun key hmem => ?_⟩
    rw [registeredKeys_concat, hkey, Option.toList_none, List.append_nil] at hmem
    exact (hm.2.2 key hmem).append _

theorem CallStep.taken {request : ReviewRequest}
    (h : CallStep service i s l (.locked request) s' l') :
    s'.registry = s.registry ∧ s'.lock = some i := by
  cases h with
  | enter => exact ⟨rfl, rfl⟩

theorem CallStep.unchanged {error : ReviewError}
    (h : CallStep service i s l (.raised error) s' l') : s'.registry = s.registry := by
  cases h with
  | unknown => rfl
  | duplicate => rfl

/-- A receipt is for a proposal that has been returned. -/
theorem generated_of_reviewed (hsound : RegistrySound service t s)
    (hl : callAt service i t s l) {receipt : ReviewReceipt}
    (hstep : CallStep service i s l (.reviewed receipt) s' l') : Generated receipt.key t := by
  cases hstep with
  | record reviewId reviewedAt hkey =>
    exact hl.2.2 _ (hsound.mem_registered (List.mem_map_of_mem hkey))

/-- When `analyze` returns, the proposals are in the registry without a receipt, if they fit. -/
theorem registered_of_returned (hsound : RegistrySound service t s)
    (hl : callAt service i t s l) {response : AnalysisResponse}
    (hstep : CallStep service i s l (.returned response) s' l')
    (hfits : response.proposedRemediations.length ≤ service.registryLimit) :
    Numbered response ∧ ∀ key ∈ response.keys, ⟨key, none⟩ ∈ s'.registry.rows := by
  cases hstep with
  | abstain => exact ⟨List.nodup_nil, nofun⟩
  | refuse hconclude =>
    rcases conclude_cases service _ _ _ _ with ⟨_, _, _, _, _, _, _, heq⟩ | ⟨_, n, reason, heq⟩
    · cases heq.symm.trans hconclude
    · cases heq.symm.trans hconclude
      exact ⟨List.nodup_nil, nofun⟩
  | finish hlimit =>
    refine ⟨hl.numbered, fun key hkey => ?_⟩
    obtain ⟨before, done, hparts, hkeys, -⟩ := hl.registered
    rw [List.append_nil] at hparts
    have hin : key ∈ s.registry.keys := by
      rw [hsound.keys_eq (not_lt.mp hlimit), hkeys, List.length_append, List.length_map, ← hparts,
        List.drop_append_of_le_length (by omega)]
      exact List.mem_append_right _ hkey
    obtain ⟨entry, hentry, rfl⟩ := List.mem_map.mp hin
    have hid : entry.key.1 = response.analysisId := by
      obtain ⟨p, -, heq⟩ := List.mem_map.mp hkey
      rw [← heq]
    have hnone := (hsound.reviewed entry hentry).mpr (hl.unreviewed _ hid)
    rw [← hnone]
    exact hentry

/-! ### Whole runs -/

variable [DecidableEq ι] {c d : Config ι (AssistantState ι) CallPoint}

theorem assistant_run (h : Run (assistant service) t c) :
    RegistrySound service t c.shared ∧ ∀ i, callAt service i t c.shared (c.loc i) := by
  refine Run.outline (I := RegistrySound service) (L := callAt service) ?_ ?_ ?_ ?_ h
  · exact ⟨List.nodup_nil, nofun, List.nodup_nil, ⟨0, Nat.zero_le _, rfl⟩,
      fun _ => Nat.zero_le _, nofun, fun _ => Nat.zero_le _, fun key hne => absurd rfl hne,
      fun _ => nofun⟩
  · rintro i l rfl
    trivial
  · exact fun t s loc i e s' l' _ hI hL hstep => call_own hI hL hstep
  · exact fun t s loc i e s' l' j _ hI hL hstep hne hj => call_stable hI hL hstep hne hj

/-- A process that has the lock finds the registry as it left it. -/
theorem registry_locked (h : Run (assistant service) t d) {t' : List (ι × CallEvent)}
    (hsteps : Steps (assistant service) d t' c) (hlock : d.shared.lock = some i)
    (hothers : ∀ x ∈ t', x.1 ≠ i) : c.shared.registry = d.shared.registry ∧
      c.shared.lock = some i ∧ c.loc i = d.loc i := by
  revert hothers
  refine Steps.induct (p := fun t' c => (∀ x ∈ t', x.1 ≠ i) →
    c.shared.registry = d.shared.registry ∧ c.shared.lock = some i ∧ c.loc i = d.loc i) ?_ ?_ hsteps
  · exact fun _ => ⟨rfl, hlock, rfl⟩
  · intro t' s loc j e s' l' hsteps ih hstep hothers
    obtain ⟨hregistry, hheld, hloc⟩ := ih (fun x hx => hothers x (List.mem_append_left _ hx))
    have hne : j ≠ i := hothers (j, e) (List.mem_append_right _ (List.mem_singleton_self _))
    have hcall := (assistant_run (h.extend hsteps)).2 j
    obtain ⟨hsame, hkept, -⟩ := CallStep.excluded hstep hcall hheld hne.symm
    exact ⟨hsame.trans hregistry, hkept.trans hheld, by
      rw [← hloc]
      exact Function.update_of_ne hne.symm _ _⟩

/-- A review that raises has changed nothing since it took the lock. -/
theorem registry_of_raised {t' : List (ι × CallEvent)} {request : ReviewRequest}
    {error : ReviewError} (h : Run (assistant service) t d)
    (hsteps : Steps (assistant service) d ((i, .locked request) :: (t' ++ [(i, .raised error)])) c)
    (hothers : ∀ x ∈ t', x.1 ≠ i) : c.shared.registry = d.shared.registry := by
  obtain ⟨s₁, l₁, hlocked, hrest⟩ := hsteps.exists_after
  obtain ⟨s, loc, s', l', hbetween, hraised, rfl⟩ := hrest.exists_before
  obtain ⟨htaken, hlock⟩ := CallStep.taken hlocked
  have hrun := h.snoc hlocked
  have hsame := (registry_locked hrun hbetween hlock hothers).1
  exact (CallStep.unchanged hraised).trans (hsame.trans htaken)

/-- SOUND REGISTRY: outside the lock the registry holds the most recent proposals; a receipt is for a
    proposal that was returned before, and there is at most one for each; a review that raises leaves
    the registry as it was; and what `analyze` returns is registered and unreviewed. -/
theorem registry_sound (service : AssistantService) {t : List (ι × CallEvent)}
    {c : Config ι (AssistantState ι) CallPoint} (h : Run (assistant service) t c) :
    (c.shared.lock = none → c.shared.registry.rows.length ≤ service.registryLimit ∧
      c.shared.registry.keys =
        (registeredKeys t).drop ((registeredKeys t).length - service.registryLimit)) ∧
    (∀ t₁ t₂ i receipt, t = t₁ ++ (i, .reviewed receipt) :: t₂ → Generated receipt.key t₁) ∧
    (∀ key, receipts key t ≤ 1) ∧
    (∀ t₁ t₂ i request error d, Run (assistant service) t₁ d →
      Steps (assistant service) d ((i, .locked request) :: (t₂ ++ [(i, .raised error)])) c →
      (∀ x ∈ t₂, x.1 ≠ i) → c.shared.registry = d.shared.registry) ∧
    (∀ t₁ i response, t = t₁ ++ [(i, .returned response)] →
      response.proposedRemediations.length ≤ service.registryLimit →
      Numbered response ∧ ∀ key ∈ response.keys, ⟨key, none⟩ ∈ c.shared.registry.rows) := by
  obtain ⟨hsound, -⟩ := assistant_run h
  refine ⟨fun hfree => ⟨hsound.fits hfree, hsound.keys_eq (hsound.fits hfree)⟩, ?_, hsound.once,
    fun t₁ t₂ i request error d hrun hsteps hothers => registry_of_raised hrun hsteps hothers, ?_⟩
  · rintro t₁ t₂ i receipt rfl
    obtain ⟨d, hrun, hsteps⟩ := h.split
    obtain ⟨s', l', hstep, -⟩ := hsteps.exists_after
    obtain ⟨hbefore, hcalls⟩ := assistant_run hrun
    exact generated_of_reviewed hbefore (hcalls i) hstep
  · rintro t₁ i response rfl hfits
    obtain ⟨s, loc, s', l', hrun, hstep, rfl⟩ := h.exists_before
    obtain ⟨hbefore, hcalls⟩ := assistant_run hrun
    exact registered_of_returned hbefore (hcalls i) hstep hfits

end

end

/-! ### One analysis and its review -/

def sampleReview : ReviewRequest :=
  ⟨"analysis-1", "proposal-1", "on-call", .approved, "Reviewed.", by decide, by decide, by decide,
    by decide⟩

/-- The registry with the one proposal. -/
def sampleRegistry (receipt : Option ReviewReceipt) : Registry :=
  ⟨[⟨("analysis-1", "proposal-1"), receipt⟩], List.nodup_singleton _⟩

theorem set_sample : Registry.set ("analysis-1", "proposal-1") none .empty = sampleRegistry none :=
  Table.ext (Registry.rows_set_of_not_mem (by simp [Table.keys]))

theorem sample_reviewed : ∃ t c receipt,
    Run (assistant (ι := Unit) sampleService) t c ∧ ((), .reviewed receipt) ∈ t := by
  obtain ⟨n, hconclude⟩ := sample_conclude
  let issued : List (String × Unit) := [("analysis-1", ())]
  let response := sampleService.respond "analysis-1" (sampleService.prepare sampleRequest).2.1 n
    sampleSafeOutput
  have hstart : Run (assistant (ι := Unit) sampleService) []
      ⟨⟨.empty, none, []⟩, fun _ => .idle⟩ :=
    ⟨⟨⟨.empty, none, []⟩, fun _ => .idle⟩, ⟨rfl, fun _ => rfl⟩, .refl _⟩
  have hask : CallStep sampleService () ⟨.empty, none, []⟩ .idle .internal ⟨.empty, none, issued⟩
      (.asking "analysis-1" sampleRequest) := .ask (by simp) (by simp [sampleRequest])
  have hinsert : CallStep sampleService () ⟨.empty, some (), issued⟩
      (.inserting response response.proposedRemediations) (.registered ("analysis-1", "proposal-1"))
      ⟨sampleRegistry none, some (), issued⟩ (.inserting response []) := by
    rw [← set_sample]
    exact .insert
  have hrequest : CallStep sampleService () ⟨sampleRegistry none, none, issued⟩ .idle .internal
      ⟨sampleRegistry none, none, issued⟩ (.waiting sampleReview) := .request
  have hreturned := (((((hstart.snoc_single hask).snoc_single (.conclude hconclude)).snoc_single
    (.lock rfl)).snoc_single hinsert).snoc_single .inserted).snoc_single (.finish (by decide))
  have hreviewed := ((hreturned.snoc_single hrequest).snoc_single (.enter rfl)).snoc_single
    (.record "review-1" ⟨2026, 7, 17, 9, 0, 10, 0, none, by decide⟩ (List.mem_singleton_self _))
  exact ⟨_, _, _, hreviewed, List.mem_append_right _ (List.mem_singleton_self _)⟩

theorem registry_sound_sample : ∃ t c receipt,
    Run (assistant (ι := Unit) sampleService) t c ∧ ((), .reviewed receipt) ∈ t ∧
    receipts receipt.key t ≤ 1 := by
  obtain ⟨t, c, receipt, hrun, hmem⟩ := sample_reviewed
  exact ⟨t, c, receipt, hrun, hmem, (registry_sound sampleService hrun).2.2.1 receipt.key⟩

end FleetPulse
