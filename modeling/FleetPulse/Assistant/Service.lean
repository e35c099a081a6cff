import FleetPulse.Assistant.Models
import FleetPulse.Assistant.Redaction

/-! `AssistantService.analyze`: what the provider is given, what is made of its answer, and when the
    answer is replaced by an abstention.

        request ──redact──▶ provider ──model_dump──▶ redact ──validate──▶ citations ──▶ response
                    │           │ raises     │ raises          │ fails       │ unknown
                    │ no        ▼            ▼                 ▼             ▼
                    └─────────▶ abstention: no claims, no proposals

    The provider may raise, or return anything; of what it returns the code takes the JSON document
    that `model_dump(mode="json")` gives, if that does not raise. A document nested too deeply for the
    interpreter is refused here by the validation, in Python by the recursion. -/

namespace FleetPulse
open Values

/-- `SecretRedactor.redact`, or another. -/
abbrev Redactor := String → RedactionResult

/-- What asking the provider comes to: the class of an exception, or an object whose `model_dump`
    raises or gives a document. -/
inductive ProviderOutcome where
  | raised (typeName : String)
  | returned (dump : Except String Payload)

/-- What a provider does with a question and the evidence. -/
abbrev IncidentProvider := String → List EvidenceItem → ProviderOutcome

structure AssistantService where
  providerName : String
  redactor : Redactor
  registryLimit : ℕ

/-! ### The registry -/

/-- `(analysis_id, proposal_id)`. -/
abbrev ProposalKey := String × String

structure RegistryEntry where
  key : ProposalKey
  receipt : Option ReviewReceipt
  deriving DecidableEq

/-- `_proposals`, in the order of insertion. -/
abbrev Registry := Table RegistryEntry.key

/-- `self._proposals[key] = receipt`. -/
def Registry.set (key : ProposalKey) (receipt : Option ReviewReceipt) (t : Registry) : Registry :=
  t.upsert ⟨key, receipt⟩ (fun e => { e with receipt }) (fun _ => rfl)

/-- `pop(next(iter(...)))`. -/
def Registry.pop (t : Registry) : Registry :=
  ⟨t.rows.tail, (List.tail_sublist t.rows).map RegistryEntry.key |>.nodup t.nodup⟩

/-- `while len(self._proposals) > self._registry_limit`, on the entries. -/
def evictEntries (limit : ℕ) : List RegistryEntry → List RegistryEntry
  | [] => []
  | e :: rest => if limit < (e :: rest).length then evictEntries limit rest else e :: rest

theorem evictEntries_eq (limit : ℕ) : ∀ rows : List RegistryEntry,
    evictEntries limit rows = rows.drop (rows.length - limit)
  | [] => by simp [evictEntries]
  | e :: rest => by
      rw [evictEntries]
      split
      · next h =>
        rw [evictEntries_eq limit rest]
        rw [List.length_cons] at h ⊢
        rw [show rest.length + 1 - limit = (rest.length - limit) + 1 by omega, List.drop_succ_cons]
      · next h => rw [show (e :: rest).length - limit = 0 by omega, List.drop_zero]

/-- The eviction loop. -/
def Registry.evict (limit : ℕ) (t : Registry) : Registry :=
  ⟨evictEntries limit t.rows, by
    rw [evictEntries_eq]
    exact ((List.drop_sublist _ _).map RegistryEntry.key).nodup t.nodup⟩

/-- `_register`. -/
def AssistantService.register (service : AssistantService) (analysisId : String)
    (proposals : List RemediationProposal) (t : Registry) : Registry :=
  Registry.evict service.registryLimit
    (proposals.foldl (fun t proposal => Registry.set (analysisId, proposal.id) none t) t)

/-! ### Redaction -/

section
variable (redactor : Redactor)

/-- `_prepare_evidence`, from an index on. -/
def prepareEvidence (index : ℕ) : List EvidenceInput → List EvidenceItem × ℕ
  | [] => ([], 0)
  | item :: inputs =>
    let source := redactor item.source
    let content := redactor item.content
    let (evidence, count) := prepareEvidence (index + 1) inputs
    (⟨"E" ++ toString index, source.text, content.text, item.observedAt⟩ :: evidence,
      source.count + content.count + count)

mutual
/-- `_redact_value`. -/
def redactValue : Payload → Payload × ℕ
  | .str s => (.str (redactor s).text, (redactor s).count)
  | .arr xs => (.arr (redactItems xs).1, (redactItems xs).2)
  | .obj kvs => (.obj (redactMembers kvs).1, (redactMembers kvs).2)
  | value => (value, 0)
def redactItems : List Payload → List Payload × ℕ
  | [] => ([], 0)
  | x :: xs => ((redactValue x).1 :: (redactItems xs).1, (redactValue x).2 + (redactItems xs).2)
def redactMembers : List (String × Payload) → List (String × Payload) × ℕ
  | [] => ([], 0)
  | (key, x) :: kvs =>
    ((key, (redactValue x).1) :: (redactMembers kvs).1, (redactValue x).2 + (redactMembers kvs).2)
end

/-- `_redact_provider_output`, or the class of what it raises. -/
def redactProviderOutput : Except String Payload → Except String (ProviderAnalysis × ℕ)
  | .error typeName => .error typeName
  | .ok dump =>
    match ProviderAnalysis.validate (redactValue redactor dump).1 with
    | some output => .ok (output, (redactValue redactor dump).2)
    | none => .error PyError.validation.typeName

end

/-! ### Citations -/

/-- The identifiers that an answer cites. -/
def ProviderAnalysis.cited (output : ProviderAnalysis) : List String :=
  output.claims.flatMap Claim.citations ++
    output.proposedRemediations.flatMap ProviderRemediation.citations

/-- `_citation_error`. -/
def citationError (output : ProviderAnalysis) (evidence : List EvidenceItem) : Option String :=
  let valid := evidence.map EvidenceItem.id
  if output.abstained then
    if output.claims ≠ [] ∨ output.proposedRemediations ≠ [] then
      some "Abstaining provider output contained claims or remediations."
    else none
  else if output.claims = [] then some "Provider supplied no supported claims."
  else
    let unknown := (output.cited.filter (fun c => !valid.contains c)).dedup.insertionSort (· ≤ ·)
    if unknown ≠ [] then
      some ("Provider cited unknown evidence identifiers: " ++ String.intercalate ", " unknown ++ ".")
    else none

/-! ### analyze -/

namespace AssistantService
variable (service : AssistantService)

/-- The question, the evidence and the count that `analyze` starts with. -/
def prepare (request : AnalysisRequest) : String × List EvidenceItem × ℕ :=
  let (evidence, count) := prepareEvidence service.redactor 1 request.evidence
  let question := service.redactor request.question
  (question.text, evidence, count + question.count)

/-- `_abstention`. -/
def abstention (analysisId : String) (evidence : List EvidenceItem) (redactionCount : ℕ)
    (reason : String) : AnalysisResponse where
  analysisId
  provider := service.providerName
  summary := "The assistant abstained; inspect the evidence manually."
  evidence
  claims := []
  proposedRemediations := []
  abstained := true
  abstentionReason := some reason
  redactionCount

/-- The proposals of an answer, numbered from an index on. -/
def proposals (index : ℕ) : List ProviderRemediation → Except PyError (List RemediationProposal)
  | [] => .ok []
  | item :: items => do
    let proposal ← RemediationProposal.create ("proposal-" ++ toString index) item.action
      item.rationale item.citations
    let rest ← proposals (index + 1) items
    return proposal :: rest

/-- What follows the answer of the provider, up to `_register`: the response, and whether its
    proposals are to be registered. -/
def conclude (analysisId : String) (evidence : List EvidenceItem) (redactionCount : ℕ)
    (outcome : ProviderOutcome) : Except PyError (AnalysisResponse × Bool) :=
  let screened : Except String (ProviderAnalysis × ℕ) := match outcome with
    | .raised typeName => .error typeName
    | .returned dump => redactProviderOutput service.redactor dump
  match screened with
  | .error typeName => .ok (service.abstention analysisId evidence redactionCount
      ("Provider output was unavailable or invalid (" ++ typeName ++ ")."), false)
  | .ok (output, count) =>
    match citationError output evidence with
    | some reason => .ok (service.abstention analysisId evidence (redactionCount + count) reason, false)
    | none => do
      let proposedRemediations ← proposals 1 output.proposedRemediations
      return ({ analysisId, provider := service.providerName, summary := output.summary, evidence,
                claims := output.claims, proposedRemediations, abstained := output.abstained,
                abstentionReason := output.abstentionReason,
                redactionCount := redactionCount + count }, true)

/-- `analyze`, up to `_register`. -/
def answer (provider : IncidentProvider) (analysisId : String) (request : AnalysisRequest) :
    Except PyError (AnalysisResponse × Bool) :=
  let (question, evidence, redactionCount) := service.prepare request
  if evidence = [] then
    .ok (service.abstention analysisId evidence redactionCount "No evidence was supplied.", false)
  else service.conclude analysisId evidence redactionCount (provider question evidence)

/-- `analyze`, when no other call is under way. -/
def analyze (provider : IncidentProvider) (analysisId : String) (request : AnalysisRequest)
    (t : Registry) : Except PyError (AnalysisResponse × Registry) := do
  let (response, registers) ← service.answer provider analysisId request
  return (response,
    if registers then service.register analysisId response.proposedRemediations t else t)

end AssistantService

end FleetPulse
