import FleetPulse.Lib.Regex
import FleetPulse.Telemetry

/-! `default_agent_id`: the agent id of a machine whose operator sets none.

    Every character that an agent id may hold is kept, wherever it stands; the schema asks more of
    the first character than of the others. -/

namespace FleetPulse
open Values Regex

/-- `[a-zA-Z0-9._-]`. -/
def isAgentIdChar (c : Char) : Bool := isAsciiAlnum c || c = '.' || c = '_' || c = '-'

/-- `[^a-zA-Z0-9._-]`. -/
def otherPattern : Regex := .chars [fun c => !isAgentIdChar c]

/-- `default_agent_id()`, with what `socket.gethostname()` returns. -/
def defaultAgentId (hostname : String) : String :=
  let normalized := String.ofList
    ((otherPattern.subn (fun _ => ['-']) 0 none hostname.toList).1.take 128)
  if normalized = "" then "fleetpulse-agent" else normalized

/-- What takes the place of a character of the host name. -/
def normalizedChar (c : Char) : Char := if isAgentIdChar c then c else '-'

section
variable {c : Char} {cs : List Char} {hostname : String}

theorem isAgentIdChar_normalizedChar (c : Char) : isAgentIdChar (normalizedChar c) = true := by
  rw [normalizedChar]
  split
  · assumption
  · rfl

/-- The hyphen that takes a character's place is no letter or digit. -/
theorem isAsciiAlnum_normalizedChar (c : Char) :
    isAsciiAlnum (normalizedChar c) = isAsciiAlnum c := by
  rw [normalizedChar]
  split
  · rfl
  · next hother =>
    have halnum : isAsciiAlnum c = false := by
      rw [isAgentIdChar] at hother
      simp only [Bool.or_eq_true, not_or, Bool.not_eq_true] at hother
      exact hother.1.1.1
    rw [halnum]
    rfl

theorem defaultAgentId_nil (h : hostname.toList = []) :
    defaultAgentId hostname = "fleetpulse-agent" := by
  simp [defaultAgentId, h, subn]

/-- A host name is normalized character by character, and the first one stays in front. -/
theorem defaultAgentId_cons (h : hostname.toList = c :: cs) : defaultAgentId hostname =
    String.ofList (normalizedChar c :: (cs.map normalizedChar).take 127) := by
  have hchar : (fun c => if (!isAgentIdChar c) = true then '-' else c) = normalizedChar := by
    funext c
    cases hc : isAgentIdChar c <;> simp [normalizedChar, hc]
  have hnormalized : (otherPattern.subn (fun _ => ['-']) 0 none hostname.toList).1.take 128 =
      normalizedChar c :: (cs.map normalizedChar).take 127 := by
    rw [h, otherPattern, subn_class, hchar, List.map_cons, List.take_succ_cons]
  have hne : String.ofList (normalizedChar c :: (cs.map normalizedChar).take 127) ≠ "" := by
    intro hempty
    have htext := congrArg String.toList hempty
    simp at htext
  rw [defaultAgentId, hnormalized]
  exact if_neg hne

theorem agentIdPattern_defaultAgentId (h : hostname.toList = c :: cs) :
    agentIdPattern (defaultAgentId hostname) = isAsciiAlnum c := by
  have htail : ∀ d ∈ (cs.map normalizedChar).take 127, isAgentIdChar d = true := by
    intro d hd
    obtain ⟨d', -, rfl⟩ := List.mem_map.mp (List.mem_of_mem_take hd)
    exact isAgentIdChar_normalizedChar d'
  have hlength : ((cs.map normalizedChar).take 127).length ≤ 127 := List.length_take_le 127 _
  rw [defaultAgentId_cons h, agentIdPattern, String.toList_ofList]
  simp only [isAsciiAlnum_normalizedChar, hlength, decide_true, Bool.and_true]
  exact Bool.and_eq_left_iff_imp.mpr (fun _ => List.all_eq_true.mpr htail)

end

/-- The default id of a host name is one that the schema admits, so that it is never the id that
    keeps the agent from making a batch. -/
structure SchemaSafe (hostname : String) : Prop where
  pattern : agentIdPattern (defaultAgentId hostname) = true
  constructs : ∀ batchId host samples, textLength 1 255 host = true →
    listLength 1 100 samples = true → samples.all TelemetrySample.valid = true →
    (TelemetryBatch.construct batchId (defaultAgentId hostname) host samples).isSome = true

/-- SCHEMA-SAFE DEFAULT: the default id of a host name is admitted if and only if the name is empty or
    begins with a letter or a digit of ASCII. -/
theorem default_agent_id_schema_safe (hostname : String) : SchemaSafe hostname ↔
    hostname.toList = [] ∨ ∃ c cs, hostname.toList = c :: cs ∧ isAsciiAlnum c = true := by
  have hpattern : SchemaSafe hostname ↔ agentIdPattern (defaultAgentId hostname) = true := by
    refine ⟨SchemaSafe.pattern, fun h => ⟨h, fun batchId host samples hhost hlength hvalid => ?_⟩⟩
    have hbatch : batchValid (defaultAgentId hostname) host samples = true := by
      rw [batchValid, h, hhost, hlength, hvalid]
      rfl
    rw [TelemetryBatch.construct, dif_pos hbatch]
    rfl
  rw [hpattern]
  cases hname : hostname.toList with
  | nil =>
    rw [defaultAgentId_nil hname]
    exact iff_of_true (by decide +kernel) (Or.inl rfl)
  | cons c cs =>
    rw [agentIdPattern_defaultAgentId hname]
    constructor
    · intro hc
      exact Or.inr ⟨c, cs, rfl, hc⟩
    · rintro (hnil | ⟨d, ds, hcons, hd⟩)
      · cases hnil
      · obtain ⟨rfl, rfl⟩ := List.cons.inj hcons
        exact hd

/-- The host name `_gateway` is its own default id. -/
theorem default_agent_id_gateway : ¬ SchemaSafe "_gateway" := by
  intro h
  exact absurd h.pattern (by decide +kernel)

end FleetPulse
