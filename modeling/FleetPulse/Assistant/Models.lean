import FleetPulse.Api.Models

/-! The contracts of the assistant: what a caller asks, what a provider may answer, what an operator
    gets, and the review of a proposal.

    The bounds of the fields are part of the types, so a provider's answer that is too long, or a
    claim without a citation, is no `ProviderAnalysis`. A field that admits one value only
    (`execution_available`) is left out, except for the ones that an operator reads. -/

namespace FleetPulse
open Values

/-- `min_length=1, max_length=20`, for a list of citations. -/
def citationsValid (citations : List String) : Bool := listLength 1 20 citations

structure EvidenceInput where
  source : String
  content : String
  observedAt : Option DateTime
  source_valid : textLength 1 200 source = true
  content_valid : textLength 1 20000 content = true

structure EvidenceItem where
  id : String
  source : String
  content : String
  observedAt : Option DateTime
  deriving DecidableEq

structure AnalysisRequest where
  question : String
  evidence : List EvidenceInput
  question_valid : textLength 1 2000 question = true
  evidence_valid : listLength 0 50 evidence = true

structure Claim where
  text : String
  citations : List String
  text_valid : textLength 1 2000 text = true
  citations_valid : citationsValid citations = true
  deriving DecidableEq

structure ProviderRemediation where
  action : String
  rationale : String
  citations : List String
  action_valid : textLength 1 2000 action = true
  rationale_valid : textLength 1 2000 rationale = true
  citations_valid : citationsValid citations = true
  deriving DecidableEq

structure ProviderAnalysis where
  summary : String
  claims : List Claim
  proposedRemediations : List ProviderRemediation
  abstained : Bool
  abstentionReason : Option String
  summary_valid : textLength 0 4000 summary = true
  claims_valid : listLength 0 50 claims = true
  remediations_valid : listLength 0 20 proposedRemediations = true
  reason_valid : abstentionReason.all (textLength 0 2000) = true
  deriving DecidableEq

inductive ApprovalStatus where
  | requiresHumanApproval
  deriving DecidableEq

structure RemediationProposal extends ProviderRemediation where
  id : String
  approvalStatus : ApprovalStatus := .requiresHumanApproval
  deriving DecidableEq

/-- `SafetyBoundary`: the three flags, and the one value that each of them may have. -/
structure SafetyBoundary where
  readOnly : Bool := true
  canExecute : Bool := false
  approvalRequired : Bool := true
  literal : readOnly = true ∧ canExecute = false ∧ approvalRequired = true := by decide
  deriving DecidableEq

/-- The defaults. -/
def SafetyBoundary.fixed : SafetyBoundary := {}

structure AnalysisResponse where
  analysisId : String
  provider : String
  summary : String
  evidence : List EvidenceItem
  claims : List Claim
  proposedRemediations : List RemediationProposal
  abstained : Bool
  abstentionReason : Option String
  redactionCount : ℕ
  safety : SafetyBoundary := .fixed
  deriving DecidableEq

inductive Decision where
  | approved
  | rejected
  deriving DecidableEq

structure ReviewRequest where
  analysisId : String
  proposalId : String
  reviewer : String
  decision : Decision
  rationale : String
  analysisId_valid : textLength 1 100 analysisId = true
  proposalId_valid : textLength 1 100 proposalId = true
  reviewer_valid : textLength 1 200 reviewer = true
  rationale_valid : textLength 1 2000 rationale = true

structure ReviewReceipt where
  reviewId : String
  analysisId : String
  proposalId : String
  reviewer : String
  decision : Decision
  rationale : String
  reviewedAt : DateTime
  deriving DecidableEq

/-! ### Validation of a provider's answer -/

/-- A value of type `bool`, from a boolean, from 0 and 1, or from one of the words for them. -/
def validateBool : Payload → Option Bool
  | .bool b => some b
  | .num (.int n) => if n = 0 then some false else if n = 1 then some true else none
  | .num (.float x) =>
    if x = .finite 0 then some false else if x = .finite 1 then some true else none
  | .str s =>
    let word := String.ofList (s.toList.map Char.toLower)
    if ["0", "off", "f", "false", "n", "no"].contains word then some false
    else if ["1", "on", "t", "true", "y", "yes"].contains word then some true
    else none
  | _ => none

/-- A value of type `str | None`. -/
def validateOptionalStr : Payload → Option (Option String)
  | .null => some none
  | .str s => some (some s)
  | _ => none

def Claim.create (text : String) (citations : List String) : Option Claim :=
  if h : textLength 1 2000 text = true ∧ citationsValid citations = true then
    some ⟨text, citations, h.1, h.2⟩
  else none

def Claim.validate : Payload → Option Claim
  | .obj kvs =>
    if onlyKeys ["text", "citations"] kvs then do
      let text ← required kvs "text" validateStr
      let citations ← required kvs "citations" (validateList validateStr)
      Claim.create text citations
    else none
  | _ => none

def ProviderRemediation.create (action rationale : String) (citations : List String) :
    Option ProviderRemediation :=
  if h : textLength 1 2000 action = true ∧ textLength 1 2000 rationale = true ∧
      citationsValid citations = true then
    some ⟨action, rationale, citations, h.1, h.2.1, h.2.2⟩
  else none

def ProviderRemediation.validate : Payload → Option ProviderRemediation
  | .obj kvs =>
    if onlyKeys ["action", "rationale", "citations"] kvs then do
      let action ← required kvs "action" validateStr
      let rationale ← required kvs "rationale" validateStr
      let citations ← required kvs "citations" (validateList validateStr)
      ProviderRemediation.create action rationale citations
    else none
  | _ => none

/-- `RemediationProposal(…)`: the bounds are checked again. -/
def RemediationProposal.create (id action rationale : String) (citations : List String) :
    Except PyError RemediationProposal :=
  match ProviderRemediation.create action rationale citations with
  | some remediation => .ok { remediation with id }
  | none => .error .validation

def ProviderAnalysis.create (summary : String) (claims : List Claim)
    (proposedRemediations : List ProviderRemediation) (abstained : Bool)
    (abstentionReason : Option String) : Option ProviderAnalysis :=
  if h : textLength 0 4000 summary = true ∧ listLength 0 50 claims = true ∧
      listLength 0 20 proposedRemediations = true ∧
      abstentionReason.all (textLength 0 2000) = true then
    some ⟨summary, claims, proposedRemediations, abstained, abstentionReason, h.1, h.2.1, h.2.2.1,
      h.2.2.2⟩
  else none

def ProviderAnalysis.validate : Payload → Option ProviderAnalysis
  | .obj kvs =>
    if onlyKeys ["summary", "claims", "proposed_remediations", "abstained",
        "abstention_reason"] kvs then do
      let summary ← required kvs "summary" validateStr
      let claims ← required kvs "claims" (validateList Claim.validate)
      let proposedRemediations ←
        required kvs "proposed_remediations" (validateList ProviderRemediation.validate)
      let abstained ← required kvs "abstained" validateBool
      let abstentionReason ← required kvs "abstention_reason" validateOptionalStr
      ProviderAnalysis.create summary claims proposedRemediations abstained abstentionReason
    else none
  | _ => none

/-! ### The dump of an answer -/

def strList (xs : List String) : Payload := .arr (xs.map .str)

def Claim.dump (claim : Claim) : Payload :=
  .obj [("text", .str claim.text), ("citations", strList claim.citations)]

def ProviderRemediation.dump (item : ProviderRemediation) : Payload :=
  .obj [("action", .str item.action), ("rationale", .str item.rationale),
    ("citations", strList item.citations)]

/-- `model_dump(mode="json")`. -/
def ProviderAnalysis.dump (output : ProviderAnalysis) : Payload :=
  .obj [("summary", .str output.summary), ("claims", .arr (output.claims.map Claim.dump)),
    ("proposed_remediations", .arr (output.proposedRemediations.map ProviderRemediation.dump)),
    ("abstained", .bool output.abstained),
    ("abstention_reason", output.abstentionReason.elim .null .str)]

end FleetPulse
