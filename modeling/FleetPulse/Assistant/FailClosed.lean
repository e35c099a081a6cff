import FleetPulse.Assistant.Service

/-! The assistant fails closed: whatever the provider does, `analyze` returns, and what it returns is
    an abstention unless every citation of the answer names an item of the evidence.

    There are two ways out of `conclude` (`conclude_cases`): an abstention, or the answer of the
    provider, redacted, revalidated and without a citation error. `citationError_eq_none` says what
    the last of these amounts to. -/

namespace FleetPulse
open Values

section
variable {redactor : Redactor} {service : AssistantService} {analysisId : String}
  {request : AnalysisRequest} {outcome : ProviderOutcome} {evidence : List EvidenceItem} {count : ℕ}
  {output : ProviderAnalysis}

/-! ### Evidence -/

theorem ids_prepareEvidence : ∀ (inputs : List EvidenceInput) (index : ℕ),
    (prepareEvidence redactor index inputs).1.map EvidenceItem.id =
      (List.range' index inputs.length).map (fun i => "E" ++ toString i)
  | [], _ => rfl
  | item :: inputs, index => by
      rw [prepareEvidence, List.length_cons, List.range'_succ, List.map_cons, List.map_cons]
      exact congrArg _ (ids_prepareEvidence inputs (index + 1))

theorem prepareEvidence_eq_nil {inputs : List EvidenceInput} {index : ℕ} :
    (prepareEvidence redactor index inputs).1 = [] ↔ inputs = [] := by
  cases inputs <;> simp [prepareEvidence]

/-- The citations name items of the evidence, and there is one. -/
def CitesEvidence (request : AnalysisRequest) (citations : List String) : Prop :=
  citations ≠ [] ∧
    ∀ c ∈ citations, ∃ i, 1 ≤ i ∧ i ≤ request.evidence.length ∧ c = "E" ++ toString i

/-- Every citation of the answer names an item of the evidence. -/
def CitesOnlyEvidence (request : AnalysisRequest) (output : ProviderAnalysis) : Prop :=
  ∀ c ∈ output.cited, ∃ i, 1 ≤ i ∧ i ≤ request.evidence.length ∧ c = "E" ++ toString i

theorem mem_ids {c : String} :
    c ∈ (service.prepare request).2.1.map EvidenceItem.id ↔
      ∃ i, 1 ≤ i ∧ i ≤ request.evidence.length ∧ c = "E" ++ toString i := by
  simp only [AssistantService.prepare, ids_prepareEvidence, List.mem_map, List.mem_range'_1]
  constructor
  · rintro ⟨i, ⟨hlow, hhigh⟩, rfl⟩
    exact ⟨i, hlow, by omega, rfl⟩
  · rintro ⟨i, hlow, hhigh, rfl⟩
    exact ⟨i, ⟨hlow, by omega⟩, rfl⟩

theorem ne_nil_of_citationsValid {citations : List String} (h : citationsValid citations = true) :
    citations ≠ [] := by
  rintro rfl
  simp [citationsValid, listLength] at h

/-! ### Citations -/

theorem insertionSort_eq_nil (xs : List String) : xs.insertionSort (· ≤ ·) = [] ↔ xs = [] := by
  rw [← List.length_eq_zero_iff, List.length_insertionSort, List.length_eq_zero_iff]

/-- An answer passes when it abstains and is empty, or has a claim and cites nothing unknown. -/
theorem citationError_eq_none : citationError output evidence = none ↔
    (output.abstained = true ∧ output.claims = [] ∧ output.proposedRemediations = []) ∨
    (output.abstained = false ∧ output.claims ≠ [] ∧
      ∀ c ∈ output.cited, c ∈ evidence.map EvidenceItem.id) := by
  cases habstained : output.abstained with
  | true =>
    by_cases hempty : output.claims = [] ∧ output.proposedRemediations = []
    · simp [citationError, habstained, hempty]
    · rw [not_and_or] at hempty
      simp only [citationError, habstained, if_true, ne_eq, if_pos hempty]
      simp only [reduceCtorEq, true_and, Bool.true_eq_false, false_and, or_false, false_iff]
      tauto
  | false =>
    by_cases hclaims : output.claims = []
    · simp [citationError, habstained, hclaims]
    · simp only [citationError, habstained, Bool.false_eq_true, if_false, hclaims, false_and,
        false_or, true_and, ne_eq, not_false_eq_true, insertionSort_eq_nil, List.dedup_eq_nil,
        List.filter_eq_nil_iff, ite_eq_right_iff, reduceCtorEq, imp_false, not_not]
      simp

/-! ### The ways out -/

/-- The proposals of a validated answer are valid. -/
theorem proposals_ok : ∀ (items : List ProviderRemediation) (index : ℕ),
    AssistantService.proposals index items = .ok (items.zipIdx index |>.map (fun (item, i) =>
      { item with id := "proposal-" ++ toString i }))
  | [], _ => rfl
  | item :: items, index => by
      have hcreate : ProviderRemediation.create item.action item.rationale item.citations =
          some item := by
        rw [ProviderRemediation.create,
          dif_pos ⟨item.action_valid, item.rationale_valid, item.citations_valid⟩]
      simp only [AssistantService.proposals, RemediationProposal.create, hcreate, bind, Except.bind,
        proposals_ok items (index + 1), List.zipIdx_cons, List.map_cons]
      rfl

/-- The response made of an answer. -/
def AssistantService.respond (service : AssistantService) (analysisId : String)
    (evidence : List EvidenceItem) (count : ℕ) (output : ProviderAnalysis) : AnalysisResponse where
  analysisId
  provider := service.providerName
  summary := output.summary
  evidence
  claims := output.claims
  proposedRemediations := output.proposedRemediations.zipIdx 1 |>.map (fun (item, i) =>
    { item with id := "proposal-" ++ toString i })
  abstained := output.abstained
  abstentionReason := output.abstentionReason
  redactionCount := count

/-- What `conclude` comes to: the answer when it passes, and else an abstention. -/
theorem conclude_cases (service : AssistantService) (analysisId : String)
    (evidence : List EvidenceItem) (count : ℕ) (outcome : ProviderOutcome) :
    (∃ dump output n, outcome = .returned (.ok dump) ∧
      ProviderAnalysis.validate (redactValue service.redactor dump).1 = some output ∧
      (redactValue service.redactor dump).2 = n ∧ citationError output evidence = none ∧
      service.conclude analysisId evidence count outcome =
        .ok (service.respond analysisId evidence (count + n) output, true)) ∨
    ((∀ dump output, outcome = .returned (.ok dump) →
        ProviderAnalysis.validate (redactValue service.redactor dump).1 = some output →
        citationError output evidence ≠ none) ∧
      ∃ n reason, service.conclude analysisId evidence count outcome =
        .ok (service.abstention analysisId evidence n reason, false)) := by
  match outcome with
  | .raised typeName => exact Or.inr ⟨nofun, _, _, rfl⟩
  | .returned (.error typeName) => exact Or.inr ⟨nofun, _, _, rfl⟩
  | .returned (.ok dump) =>
    cases hvalidate : ProviderAnalysis.validate (redactValue service.redactor dump).1 with
    | none =>
      refine Or.inr ⟨?_, count, "Provider output was unavailable or invalid (ValidationError).", ?_⟩
      · rintro _ output ⟨⟩ hsome
        rw [hvalidate] at hsome
        cases hsome
      · simp only [AssistantService.conclude, redactProviderOutput, hvalidate]
        rfl
    | some output =>
      cases herror : citationError output evidence with
      | none =>
        refine Or.inl ⟨dump, output, _, rfl, hvalidate, rfl, herror, ?_⟩
        simp only [AssistantService.conclude, redactProviderOutput, hvalidate, herror, proposals_ok,
          bind, Except.bind]
        rfl
      | some reason =>
        refine Or.inr ⟨?_, count + (redactValue service.redactor dump).2, reason, ?_⟩
        · rintro _ output' ⟨⟩ hsome
          rw [hvalidate] at hsome
          cases hsome
          rw [herror]
          nofun
        · simp only [AssistantService.conclude, redactProviderOutput, hvalidate, herror]

/-! ### Fail closed -/

/-- A response that an operator may rely on: it has evidence and a claim, and every claim and every
    proposal cites items of the evidence. -/
def Supported (request : AnalysisRequest) (response : AnalysisResponse) : Prop :=
  response.abstained = false ∧ request.evidence ≠ [] ∧ response.claims ≠ [] ∧
    (∀ claim ∈ response.claims, CitesEvidence request claim.citations) ∧
    ∀ proposal ∈ response.proposedRemediations, CitesEvidence request proposal.citations

def Abstaining (response : AnalysisResponse) : Prop :=
  response.abstained = true ∧ response.claims = [] ∧ response.proposedRemediations = []

/-- The answer of the provider stands: there is evidence, and the redacted form of the answer is an
    analysis that does not abstain, makes a claim and cites the evidence only. -/
def Stands (redactor : Redactor) (request : AnalysisRequest) (outcome : ProviderOutcome) : Prop :=
  request.evidence ≠ [] ∧ ∃ dump output, outcome = .returned (.ok dump) ∧
    ProviderAnalysis.validate (redactValue redactor dump).1 = some output ∧
    output.abstained = false ∧ output.claims ≠ [] ∧ CitesOnlyEvidence request output

theorem mem_proposals {items : List ProviderRemediation} {index : ℕ} {proposal : RemediationProposal}
    (h : proposal ∈ (items.zipIdx index).map (fun (item, i) =>
      ({ item with id := "proposal-" ++ toString i } : RemediationProposal))) :
    proposal.toProviderRemediation ∈ items := by
  obtain ⟨⟨item, i⟩, hmem, rfl⟩ := List.mem_map.mp h
  exact List.fst_mem_of_mem_zipIdx hmem

/-- An answer that cites the evidence only makes a supported response. -/
theorem supported_respond (habstained : output.abstained = false) (hevidence : request.evidence ≠ [])
    (hclaims : output.claims ≠ []) (hcites : CitesOnlyEvidence request output) :
    Supported request (service.respond analysisId evidence count output) := by
  refine ⟨habstained, hevidence, hclaims, fun claim hclaim => ⟨?_, fun c hc => ?_⟩,
    fun proposal hproposal => ⟨?_, fun c hc => ?_⟩⟩
  · exact ne_nil_of_citationsValid claim.citations_valid
  · exact hcites c (List.mem_append_left _ (List.mem_flatMap.mpr ⟨claim, hclaim, hc⟩))
  · exact ne_nil_of_citationsValid proposal.citations_valid
  · exact hcites c (List.mem_append_right _
      (List.mem_flatMap.mpr ⟨_, mem_proposals hproposal, hc⟩))

/-- What the provider makes of the request as it is given to it. -/
def AssistantService.ask (service : AssistantService) (provider : IncidentProvider)
    (request : AnalysisRequest) : ProviderOutcome :=
  provider (service.prepare request).1 (service.prepare request).2.1

theorem answer_without_evidence (service : AssistantService) (provider : IncidentProvider)
    (analysisId : String)
    (h : request.evidence = []) : service.answer provider analysisId request =
      .ok (service.abstention analysisId (service.prepare request).2.1
        (service.prepare request).2.2 "No evidence was supplied.", false) := by
  rw [AssistantService.answer]
  exact if_pos (prepareEvidence_eq_nil.mpr h)

theorem answer_with_evidence (service : AssistantService) (provider : IncidentProvider)
    (analysisId : String)
    (h : request.evidence ≠ []) : service.answer provider analysisId request =
      service.conclude analysisId (service.prepare request).2.1 (service.prepare request).2.2
        (service.ask provider request) := by
  rw [AssistantService.answer]
  exact if_neg (mt prepareEvidence_eq_nil.mp h)

/-- What `answer` comes to: a supported response when the answer stands, and else an abstention. -/
theorem answer_cases (service : AssistantService) (provider : IncidentProvider)
    (analysisId : String) (request : AnalysisRequest) : ∃ response registers,
    service.answer provider analysisId request = .ok (response, registers) ∧
    ((Stands service.redactor request (service.ask provider request) ∧
        Supported request response) ∨
      (¬ Stands service.redactor request (service.ask provider request) ∧
        Abstaining response)) := by
  by_cases hevidence : request.evidence = []
  · exact ⟨_, false, answer_without_evidence service provider analysisId hevidence,
      Or.inr ⟨fun h => h.1 hevidence, rfl, rfl, rfl⟩⟩
  have hanswer := answer_with_evidence service provider analysisId hevidence
  generalize service.ask provider request = outcome at hanswer ⊢
  rcases conclude_cases service analysisId (service.prepare request).2.1
      (service.prepare request).2.2 outcome with
    ⟨dump, output, n, rfl, hvalidate, -, hnone, hconclude⟩ | ⟨hrefused, n, reason, hconclude⟩
  · refine ⟨_, true, hanswer.trans hconclude, ?_⟩
    rcases citationError_eq_none.mp hnone with
      ⟨habstained, hclaims, hproposals⟩ | ⟨habstained, hclaims, hknown⟩
    · refine Or.inr ⟨?_, habstained, hclaims, by simp [AssistantService.respond, hproposals]⟩
      rintro ⟨-, _, output', ⟨⟩, hvalidate', habstained', -⟩
      rw [hvalidate] at hvalidate'
      cases hvalidate'
      rw [habstained] at habstained'
      cases habstained'
    · have hcites : CitesOnlyEvidence request output := fun c hc => mem_ids.mp (hknown c hc)
      exact Or.inl ⟨⟨hevidence, dump, output, rfl, hvalidate, habstained, hclaims, hcites⟩,
        supported_respond habstained hevidence hclaims hcites⟩
  · refine ⟨_, false, hanswer.trans hconclude, Or.inr ⟨?_, rfl, rfl, rfl⟩⟩
    rintro ⟨-, dump, output, houtcome, hvalidate, habstained, hclaims, hcites⟩
    exact hrefused dump output houtcome hvalidate (citationError_eq_none.mpr
      (Or.inr ⟨habstained, hclaims, fun c hc => mem_ids.mpr (hcites c hc)⟩))

/-- Registering no proposals adds nothing. -/
theorem mem_register_nil {t : Registry} {e : RegistryEntry}
    (h : e ∈ (service.register analysisId [] t).rows) : e ∈ t.rows := by
  simp only [AssistantService.register, List.foldl_nil, Registry.evict, evictEntries_eq] at h
  exact List.mem_of_mem_drop h

/-- FAIL CLOSED: for every provider and every request there is a response; it is an abstention or a
    supported response, and the latter exactly when the provider's answer stands; and an abstention
    registers nothing. -/
theorem analyze_fails_closed (service : AssistantService) (provider : IncidentProvider)
    (analysisId : String) (request : AnalysisRequest) (t : Registry) :
    ∃ response t', service.analyze provider analysisId request t = .ok (response, t') ∧
      (Abstaining response ∨ Supported request response) ∧
      (response.abstained = false ↔
        Stands service.redactor request (service.ask provider request)) ∧
      (response.abstained = true → ∀ e ∈ t'.rows, e ∈ t.rows) := by
  obtain ⟨response, registers, hanswer, hcases⟩ :=
    answer_cases service provider analysisId request
  refine ⟨response, if registers then service.register analysisId response.proposedRemediations t
    else t, by rw [AssistantService.analyze, hanswer]; rfl, ?_⟩
  rcases hcases with ⟨hstands, hsupported⟩ | ⟨hnot, habstaining⟩
  · refine ⟨Or.inr hsupported, ⟨fun _ => hstands, fun _ => hsupported.1⟩, fun h => ?_⟩
    rw [hsupported.1] at h
    cases h
  · refine ⟨Or.inl habstaining, ⟨fun h => ?_, fun h => absurd h hnot⟩, fun _ e he => ?_⟩
    · rw [habstaining.1] at h
      cases h
    · cases registers with
      | false => exact he
      | true =>
        rw [if_pos rfl, habstaining.2.2] at he
        exact mem_register_nil he

end

end FleetPulse
