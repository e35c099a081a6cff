import FleetPulse.Assistant.FailClosed

/-! What crosses the boundary of the assistant is redacted, text by text, and nothing else about it
    changes.

    On the way in that is one pass over the evidence (`prepareEvidence_eq`). On the way out the
    redaction goes over the dump of the answer and the result is validated again: the dump of an
    analysis becomes the dump of the redacted texts (`redactValue_dump`), and what is validated from
    that has those texts (`fields_of_validate`). -/

namespace FleetPulse
open Values

section
variable {redactor : Redactor}

/-! ### Inwards -/

theorem prepareEvidence_eq : ∀ (inputs : List EvidenceInput) (index : ℕ),
    prepareEvidence redactor index inputs =
      ((inputs.zipIdx index).map (fun (item, i) => ⟨"E" ++ toString i, (redactor item.source).text,
        (redactor item.content).text, item.observedAt⟩),
        ((inputs.flatMap (fun item => [item.source, item.content])).map
          (fun s => (redactor s).count)).sum)
  | [], _ => rfl
  | item :: inputs, index => by
      simp [prepareEvidence, prepareEvidence_eq inputs (index + 1), List.zipIdx_cons, Nat.add_assoc]

/-! ### The dump, redacted -/

/-- The text that takes the place of a text. -/
def redactText (redactor : Redactor) (s : String) : String := (redactor s).text

/-- Substitutions in several texts. -/
def redactions (redactor : Redactor) (texts : List String) : ℕ :=
  (texts.map (fun s => (redactor s).count)).sum

theorem redactions_append (xs ys : List String) :
    redactions redactor (xs ++ ys) = redactions redactor xs + redactions redactor ys := by
  simp [redactions]

theorem redactItems_map {α : Type} {dump redacted : α → Payload} {texts : α → List String}
    (h : ∀ x, redactValue redactor (dump x) = (redacted x, redactions redactor (texts x))) :
    ∀ xs : List α, redactItems redactor (xs.map dump) =
      (xs.map redacted, redactions redactor (xs.flatMap texts))
  | [] => rfl
  | x :: xs => by
      rw [List.map_cons, redactItems, h, redactItems_map h xs, List.flatMap_cons, redactions_append]
      rfl

theorem redactValue_strList (xs : List String) : redactValue redactor (strList xs) =
    (strList (xs.map (redactText redactor)), redactions redactor xs) := by
  have hitems : redactItems redactor (xs.map .str) =
      (xs.map (fun s => .str (redactText redactor s)),
        redactions redactor (xs.flatMap (fun s => [s]))) :=
    redactItems_map (fun s => by simp [redactValue, redactions, redactText]) xs
  rw [strList, redactValue, hitems]
  simp [strList, Function.comp_def]

/-- The document of a claim. -/
def claimDocument (text : String) (citations : List String) : Payload :=
  .obj [("text", .str text), ("citations", strList citations)]

/-- The document of a proposed remediation. -/
def remediationDocument (action rationale : String) (citations : List String) : Payload :=
  .obj [("action", .str action), ("rationale", .str rationale), ("citations", strList citations)]

/-- The texts of a claim, and of a proposed remediation. -/
def Claim.texts (claim : Claim) : List String := claim.text :: claim.citations

def ProviderRemediation.texts (item : ProviderRemediation) : List String :=
  item.action :: item.rationale :: item.citations

/-- The texts of an answer: the summary, the claims, the proposals, and the reason if there is one. -/
def ProviderAnalysis.texts (output : ProviderAnalysis) : List String :=
  output.summary :: (output.claims.flatMap Claim.texts ++
    (output.proposedRemediations.flatMap ProviderRemediation.texts ++
      output.abstentionReason.toList))

theorem redactValue_claim (claim : Claim) : redactValue redactor claim.dump =
    (claimDocument (redactText redactor claim.text) (claim.citations.map (redactText redactor)),
      redactions redactor claim.texts) := by
  simp [Claim.dump, redactValue, redactMembers, redactValue_strList, claimDocument, Claim.texts,
    redactText, redactions]

theorem redactValue_remediation (item : ProviderRemediation) : redactValue redactor item.dump =
    (remediationDocument (redactText redactor item.action) (redactText redactor item.rationale)
      (item.citations.map (redactText redactor)), redactions redactor item.texts) := by
  simp [ProviderRemediation.dump, redactValue, redactMembers, redactValue_strList,
    remediationDocument, ProviderRemediation.texts, redactText, redactions]

/-- The redacted document of an answer has the redacted texts in its places, and every text is
    counted once. -/
theorem redactValue_dump (output : ProviderAnalysis) : redactValue redactor output.dump =
    (.obj [("summary", .str (redactText redactor output.summary)),
      ("claims", .arr (output.claims.map (fun claim => claimDocument
        (redactText redactor claim.text) (claim.citations.map (redactText redactor))))),
      ("proposed_remediations", .arr (output.proposedRemediations.map (fun item =>
        remediationDocument (redactText redactor item.action) (redactText redactor item.rationale)
          (item.citations.map (redactText redactor))))),
      ("abstained", .bool output.abstained),
      ("abstention_reason", (output.abstentionReason.map (redactText redactor)).elim .null .str)],
      redactions redactor output.texts) := by
  have hreason : redactValue redactor (output.abstentionReason.elim .null .str) =
      ((output.abstentionReason.map (redactText redactor)).elim .null .str,
        redactions redactor output.abstentionReason.toList) := by
    cases output.abstentionReason <;> simp [redactValue, redactText, redactions]
  simp only [ProviderAnalysis.dump, redactValue, redactMembers,
    redactItems_map redactValue_claim, redactItems_map redactValue_remediation, hreason,
    ProviderAnalysis.texts, Nat.zero_add, Nat.add_zero]
  simp [redactions, redactText]

/-! ### Validated again -/

theorem map_of_validateList {α β γ : Type} {validate : Payload → Option β} {document : α → Payload}
    {f : β → γ} {g : α → γ} (h : ∀ x y, validate (document x) = some y → f y = g x) :
    ∀ {xs : List α} {ys : List β},
      validateList validate (.arr (xs.map document)) = some ys → ys.map f = xs.map g
  | [], ys, hys => by
      cases hys
      rfl
  | x :: xs, ys, hys => by
      simp only [validateList, List.map_cons, List.mapM_cons, bind, Option.bind_eq_some_iff] at hys
      obtain ⟨y, hy, rest, hrest, hys⟩ := hys
      cases hys
      rw [List.map_cons, List.map_cons, h x y hy, map_of_validateList h hrest]

theorem validateList_strList (xs : List String) :
    validateList validateStr (strList xs) = some xs :=
  validateList_map (fun _ _ => rfl)

theorem fields_of_claim {text : String} {citations : List String} {claim : Claim}
    (h : Claim.validate (claimDocument text citations) = some claim) :
    (claim.text, claim.citations) = (text, citations) := by
  have hcreate : Claim.validate (claimDocument text citations) = Claim.create text citations := by
    simp [Claim.validate, claimDocument, List.lookup_cons, onlyKeys, required, validateStr,
      validateList_strList]
  rw [hcreate, Claim.create] at h
  split at h
  · cases h
    rfl
  · cases h

theorem fields_of_remediation {action rationale : String} {citations : List String}
    {item : ProviderRemediation}
    (h : ProviderRemediation.validate (remediationDocument action rationale citations) = some item) :
    (item.action, item.rationale, item.citations) = (action, rationale, citations) := by
  have hcreate : ProviderRemediation.validate (remediationDocument action rationale citations) =
      ProviderRemediation.create action rationale citations := by
    simp [ProviderRemediation.validate, remediationDocument, List.lookup_cons, onlyKeys, required,
      validateStr, validateList_strList]
  rw [hcreate, ProviderRemediation.create] at h
  split at h
  · cases h
    rfl
  · cases h

/-- The document of an answer is validated field by field. -/
theorem validate_document (summary : String) (claims items reason : Payload) (abstained : Bool) :
    ProviderAnalysis.validate (.obj [("summary", .str summary), ("claims", claims),
        ("proposed_remediations", items), ("abstained", .bool abstained),
        ("abstention_reason", reason)]) =
      (validateList Claim.validate claims).bind (fun claims =>
        (validateList ProviderRemediation.validate items).bind (fun items =>
          (validateOptionalStr reason).bind (fun reason =>
            ProviderAnalysis.create summary claims items abstained reason))) := by
  simp [ProviderAnalysis.validate, List.lookup_cons, onlyKeys, required, validateStr, validateBool]

/-- The second answer is the first with every text redacted. -/
def Redacted (redactor : Redactor) (output output' : ProviderAnalysis) : Prop :=
  output'.summary = redactText redactor output.summary ∧
  output'.claims.map (fun claim => (claim.text, claim.citations)) =
    output.claims.map (fun claim =>
      (redactText redactor claim.text, claim.citations.map (redactText redactor))) ∧
  output'.proposedRemediations.map (fun item => (item.action, item.rationale, item.citations)) =
    output.proposedRemediations.map (fun item => (redactText redactor item.action,
      redactText redactor item.rationale, item.citations.map (redactText redactor))) ∧
  output'.abstained = output.abstained ∧
  output'.abstentionReason = output.abstentionReason.map (redactText redactor)

/-- The redaction of an answer, when it validates, is the answer with every text redacted. -/
theorem redacted_of_validate {output output' : ProviderAnalysis}
    (h : ProviderAnalysis.validate (redactValue redactor output.dump).1 = some output') :
    Redacted redactor output output' := by
  have hreason : validateOptionalStr ((output.abstentionReason.map (redactText redactor)).elim
      .null .str) = some (output.abstentionReason.map (redactText redactor)) := by
    cases output.abstentionReason <;> rfl
  rw [redactValue_dump, validate_document, hreason] at h
  simp only [Option.bind_eq_some_iff, Option.some.injEq, exists_eq_left'] at h
  obtain ⟨claims, hclaims, items, hitems, hcreate⟩ := h
  rw [ProviderAnalysis.create] at hcreate
  split at hcreate
  · cases hcreate
    exact ⟨rfl, map_of_validateList (fun _ _ => fields_of_claim) hclaims,
      map_of_validateList (fun _ _ => fields_of_remediation) hitems, rfl, rfl⟩
  · cases hcreate

/-! ### The whole boundary -/

/-- The evidence that the provider is to receive. -/
def redactedEvidence (redactor : Redactor) (request : AnalysisRequest) : List EvidenceItem :=
  (request.evidence.zipIdx 1).map (fun (item, i) => ⟨"E" ++ toString i,
    redactText redactor item.source, redactText redactor item.content, item.observedAt⟩)

/-- The texts of a request. -/
def AnalysisRequest.texts (request : AnalysisRequest) : List String :=
  request.question :: request.evidence.flatMap (fun item => [item.source, item.content])

theorem prepare_eq (service : AssistantService) (request : AnalysisRequest) :
    service.prepare request = (redactText service.redactor request.question,
      redactedEvidence service.redactor request, redactions service.redactor request.texts) := by
  simp [AssistantService.prepare, prepareEvidence_eq, redactText, redactedEvidence, redactions,
    AnalysisRequest.texts, Nat.add_comm]

theorem map_proposals (items : List ProviderRemediation) (index : ℕ) :
    ((items.zipIdx index).map (fun (item, i) =>
      ({ item with id := "proposal-" ++ toString i } : RemediationProposal))).map
        (fun proposal => (proposal.action, proposal.rationale, proposal.citations)) =
      items.map (fun item => (item.action, item.rationale, item.citations)) := by
  conv_rhs => rw [← List.zipIdx_map_fst index items, List.map_map]
  rw [List.map_map]
  rfl

/-- The response carries the answer with every text redacted. -/
def Carries (redactor : Redactor) (output : ProviderAnalysis) (response : AnalysisResponse) : Prop :=
  response.summary = redactText redactor output.summary ∧
  response.claims.map (fun claim => (claim.text, claim.citations)) =
    output.claims.map (fun claim =>
      (redactText redactor claim.text, claim.citations.map (redactText redactor))) ∧
  response.proposedRemediations.map (fun p => (p.action, p.rationale, p.citations)) =
    output.proposedRemediations.map (fun item => (redactText redactor item.action,
      redactText redactor item.rationale, item.citations.map (redactText redactor))) ∧
  response.abstained = output.abstained ∧
  response.abstentionReason = output.abstentionReason.map (redactText redactor)

/-- REDACTED AT THE BOUNDARY: the provider receives the redacted request, item by item; and when its
    answer is the one returned, the response has the redacted text in every place and counts the
    substitutions in every text of the request and of the answer once. -/
theorem boundary_redacted (service : AssistantService) (provider : IncidentProvider)
    (analysisId : String) (request : AnalysisRequest) (output : ProviderAnalysis) :
    service.ask provider request = provider (redactText service.redactor request.question)
      (redactedEvidence service.redactor request) ∧
    (service.ask provider request = .returned (.ok output.dump) →
      ∀ response, service.answer provider analysisId request = .ok (response, true) →
        Carries service.redactor output response ∧
        response.evidence = redactedEvidence service.redactor request ∧
        response.redactionCount =
          redactions service.redactor (request.texts ++ output.texts)) := by
  refine ⟨by rw [AssistantService.ask, prepare_eq], fun hask response hanswer => ?_⟩
  by_cases hevidence : request.evidence = []
  · rw [answer_without_evidence service provider analysisId hevidence] at hanswer
    cases hanswer
  rw [answer_with_evidence service provider analysisId hevidence] at hanswer
  rcases conclude_cases service analysisId (service.prepare request).2.1
      (service.prepare request).2.2 (service.ask provider request) with
    ⟨dump, output', n, houtcome, hvalidate, rfl, -, hconclude⟩ | ⟨-, n, reason, hconclude⟩
  · obtain rfl : output.dump = dump := by
      rw [hask] at houtcome
      cases houtcome
      rfl
    obtain ⟨hsummary, hclaims, hitems, habstained, hreason⟩ := redacted_of_validate hvalidate
    obtain rfl : service.respond analysisId (service.prepare request).2.1
        ((service.prepare request).2.2 + (redactValue service.redactor output.dump).2) output' =
          response := by
      have heq := hconclude.symm.trans hanswer
      cases heq
      rfl
    refine ⟨⟨hsummary, hclaims, ?_, habstained, hreason⟩, by rw [prepare_eq]; rfl, ?_⟩
    · rw [AssistantService.respond, map_proposals, hitems]
    · rw [AssistantService.respond, prepare_eq, redactValue_dump, redactions_append]
  · exact absurd (hconclude.symm.trans hanswer) (by rintro ⟨⟩)

end

/-! ### A request with two secrets, and an answer with one -/

def sampleRequest : AnalysisRequest :=
  ⟨"token=abc what happened?", [⟨"log", "password=xyz failed", none, by decide, by decide⟩],
    by decide, by decide⟩

def sampleOutput : ProviderAnalysis :=
  ⟨"secret: q", [⟨"The worker stopped.", ["E1"], by decide, by decide⟩],
    [⟨"Restart it.", "It stopped.", ["E1"], by decide, by decide, by decide⟩], false, none,
    by decide, by decide, by decide, by decide⟩

def sampleService : AssistantService := ⟨"sample", SecretRedactor.redact .ascii, 1000⟩

def sampleProvider : IncidentProvider := fun _ _ => .returned (.ok sampleOutput.dump)

def sampleSafeOutput : ProviderAnalysis :=
  { sampleOutput with summary := "secret: [REDACTED]", summary_valid := by decide }

theorem sample_conclude : ∃ n, sampleService.conclude "analysis-1"
    (sampleService.prepare sampleRequest).2.1 (sampleService.prepare sampleRequest).2.2
    (.returned (.ok sampleOutput.dump)) =
      .ok (sampleService.respond "analysis-1" (sampleService.prepare sampleRequest).2.1 n
        sampleSafeOutput, true) := by
  have hvalidate : ProviderAnalysis.validate
      (redactValue sampleService.redactor sampleOutput.dump).1 = some sampleSafeOutput := by
    decide +kernel
  have hcited : citationError sampleSafeOutput (sampleService.prepare sampleRequest).2.1 = none := by
    decide +kernel
  rcases conclude_cases sampleService "analysis-1" (sampleService.prepare sampleRequest).2.1
      (sampleService.prepare sampleRequest).2.2 (.returned (.ok sampleOutput.dump)) with
    ⟨dump, output, n, hdump, hsome, _, _, h⟩ | ⟨h, _⟩
  · cases hdump
    cases hvalidate.symm.trans hsome
    exact ⟨_, h⟩
  · exact absurd hcited (h _ _ rfl hvalidate)

theorem boundary_redacted_sample : ∃ response,
    sampleService.answer sampleProvider "analysis-1" sampleRequest = .ok (response, true) ∧
    Carries sampleService.redactor sampleOutput response ∧
    response.redactionCount =
      redactions sampleService.redactor (sampleRequest.texts ++ sampleOutput.texts) := by
  obtain ⟨n, hconclude⟩ := sample_conclude
  have hanswer := (answer_with_evidence sampleService sampleProvider "analysis-1"
    (by simp [sampleRequest])).trans hconclude
  obtain ⟨hcarries, -, hcount⟩ := (boundary_redacted sampleService sampleProvider "analysis-1"
    sampleRequest sampleOutput).2 rfl _ hanswer
  exact ⟨_, hanswer, hcarries, hcount⟩

end FleetPulse
