import FleetPulse.Lib.Sequences

/-! `require_agent_token`: the bearer token that the ingestion routes ask for.

    The server hands out a header as the bytes it read, decoded as Latin-1, so every byte is one
    character. The comparison in constant time is defined for ASCII on both sides only. -/

namespace FleetPulse
open Sequences

/-- What the dependency raises. -/
inductive AuthError where
  | httpException (statusCode : ℕ) (detail : String) (headers : List (String × String))
  | typeError
  deriving DecidableEq

def invalidCredential : AuthError :=
  .httpException 401 "invalid agent credential" [("WWW-Authenticate", "Bearer")]

/-- `bytes.decode("latin-1")`. -/
def decodeLatin1 (bytes : List UInt8) : List Char := bytes.map (fun b => Char.ofNat b.toNat)

/-- `request.headers.get("Authorization", "")`. -/
def authorizationText (authorization : Option (List UInt8)) : List Char :=
  decodeLatin1 (authorization.getD [])

/-- `str.lower` on one character of Latin-1: the ASCII capitals and the accented ones. -/
def lowerLatin1 (c : Char) : Char :=
  if ('A' ≤ c ∧ c ≤ 'Z') ∨ (0xC0 ≤ c.toNat ∧ c.toNat ≤ 0xDE ∧ c.toNat ≠ 0xD7) then
    Char.ofNat (c.toNat + 32)
  else c

def isAscii (text : List Char) : Bool := text.all (fun c => c.toNat < 128)

/-- `secrets.compare_digest` on two strings. -/
def compareDigest (a b : List Char) : Except AuthError Bool :=
  if isAscii a && isAscii b then .ok (a = b) else .error .typeError

/-- `require_agent_token(request)`, with the configured token and the header's bytes. -/
def requireAgentToken (expected : String) (authorization : Option (List UInt8)) :
    Except AuthError Unit :=
  let (scheme, _, supplied) := partition ' ' (authorizationText authorization)
  if scheme.map lowerLatin1 ≠ "bearer".toList then .error invalidCredential
  else do
    -- `or` has not evaluated the comparison before
    let equal ← compareDigest supplied expected.toList
    if !equal then .error invalidCredential

/-! ### What the header has to present -/

/-- A word of small letters in any letter case. -/
def AnyCase (text word : List Char) : Prop :=
  List.Forall₂ (fun c p => c = p ∨ c = p.toUpper) text word

/-- The bearer scheme in front of the first space, and the credential behind it. -/
def Presents (header supplied : List Char) : Prop :=
  ∃ scheme, ' ' ∉ scheme ∧ AnyCase scheme "bearer".toList ∧ header = scheme ++ ' ' :: supplied

section
variable {c lo hi p : Char} {header supplied : List Char}

theorem toNat_bounds : lo ≤ c ∧ c ≤ hi ↔ lo.toNat ≤ c.toNat ∧ c.toNat ≤ hi.toNat :=
  and_congr UInt32.le_iff_toNat_le UInt32.le_iff_toNat_le

theorem toNat_toUpper (hp : 'a' ≤ p ∧ p ≤ 'z') : p.toUpper.toNat + 32 = p.toNat := by
  have hsub : ('A'.val - 'a'.val).toNat = 2 ^ 32 - 32 := by decide
  have hbounds : 97 ≤ p.val.toNat ∧ p.val.toNat ≤ 122 := toNat_bounds.mp hp
  rw [Char.toUpper, dif_pos (show 'a'.val ≤ p.val ∧ p.val ≤ 'z'.val from hp)]
  simp only [Char.toNat, UInt32.toNat_add, hsub]
  omega

theorem lowerLatin1_eq_iff (hp : 'a' ≤ p ∧ p ≤ 'z') :
    lowerLatin1 c = p ↔ c = p ∨ c = p.toUpper := by
  have hupper := toNat_toUpper hp
  have hbounds : 97 ≤ p.toNat ∧ p.toNat ≤ 122 := toNat_bounds.mp hp
  have hcapital : 'A' ≤ c ∧ c ≤ 'Z' ↔ 65 ≤ c.toNat ∧ c.toNat ≤ 90 := toNat_bounds
  simp only [lowerLatin1, hcapital, ← Char.toNat_inj]
  split
  · rw [Char.toNat_ofNat, if_pos (by simp only [Nat.isValidChar]; omega)]
    omega
  · omega

theorem map_lowerLatin1_eq_iff {word : List Char} (hword : ∀ p ∈ word, 'a' ≤ p ∧ p ≤ 'z') :
    ∀ {text : List Char}, text.map lowerLatin1 = word ↔ AnyCase text word := by
  induction word with
  | nil => simp [AnyCase]
  | cons p word ih =>
    intro text
    cases text with
    | nil => simp [AnyCase]
    | cons c text =>
      rw [AnyCase, List.forall₂_cons, List.map_cons, List.cons.injEq,
        lowerLatin1_eq_iff (hword p (by simp)),
        ih (fun q hq => hword q (List.mem_cons_of_mem p hq)), AnyCase]

theorem map_lowerLatin1_eq_bearer {text : List Char} :
    text.map lowerLatin1 = "bearer".toList ↔ AnyCase text "bearer".toList := by
  refine map_lowerLatin1_eq_iff (fun p hp => ?_)
  fin_cases hp <;> decide

/-- A header presents one credential. -/
theorem Presents.partition (h : Presents header supplied) : ∃ scheme,
    Sequences.partition ' ' header = (scheme, [' '], supplied) ∧
      AnyCase scheme "bearer".toList := by
  obtain ⟨scheme, hspace, hcase, rfl⟩ := h
  exact ⟨scheme, partition_append hspace supplied, hcase⟩

theorem Presents.unique {supplied' : List Char} (h : Presents header supplied)
    (h' : Presents header supplied') : supplied = supplied' := by
  obtain ⟨scheme, hscheme, -⟩ := h.partition
  obtain ⟨scheme', hscheme', -⟩ := h'.partition
  rw [hscheme] at hscheme'
  exact congrArg (·.2.2) hscheme'

end

/-! ### The answer to every header -/

section
variable {expected : String} {authorization : Option (List UInt8)} {supplied : List Char}

theorem compareDigest_ascii {a b : List Char} (ha : isAscii a = true) (hb : isAscii b = true) :
    compareDigest a b = .ok (decide (a = b)) := by
  rw [compareDigest, ha, hb, Bool.and_self, if_pos rfl]

theorem compareDigest_beyond {a b : List Char} (ha : ¬ isAscii a = true) :
    compareDigest a b = .error .typeError := by
  simp [compareDigest, ha]

/-- With a bearer credential the comparison decides. -/
theorem requireAgentToken_of_presents (h : Presents (authorizationText authorization) supplied) :
    requireAgentToken expected authorization = (do
      let equal ← compareDigest supplied expected.toList
      if !equal then .error invalidCredential) := by
  obtain ⟨scheme, hscheme, hcase⟩ := h.partition
  rw [requireAgentToken, hscheme]
  exact if_neg (not_not_intro (map_lowerLatin1_eq_bearer.mpr hcase))

/-- Without one the header is refused, whatever else is in it: a scheme with nothing behind it is
    compared as the empty credential. -/
theorem requireAgentToken_of_not_presents (hne : expected ≠ "")
    (hascii : isAscii expected.toList = true)
    (h : ∀ supplied, ¬ Presents (authorizationText authorization) supplied) :
    requireAgentToken expected authorization = .error invalidCredential := by
  have hempty : [] ≠ expected.toList := fun he => hne (String.toList_eq_nil_iff.mp he.symm)
  rcases partition_cases ' ' (authorizationText authorization) with
    ⟨-, hwhole⟩ | ⟨scheme, supplied, hspace, hheader, hsplit⟩
  · rw [requireAgentToken, hwhole]
    by_cases hcase : (authorizationText authorization).map lowerLatin1 = "bearer".toList
    · refine (if_neg (not_not_intro hcase)).trans ?_
      rw [compareDigest_ascii rfl hascii, decide_eq_false hempty]
      rfl
    · exact if_pos hcase
  · have hcase : scheme.map lowerLatin1 ≠ "bearer".toList := fun hcase =>
      h supplied ⟨scheme, hspace, map_lowerLatin1_eq_bearer.mp hcase, hheader⟩
    rw [requireAgentToken, hsplit]
    exact if_pos hcase

end

/-- The claim about a token and a header: the header is answered, and let in with the token only. -/
def AnswersHeader (expected : String) (authorization : Option (List UInt8)) : Prop :=
  (requireAgentToken expected authorization = .ok () ↔
    Presents (authorizationText authorization) expected.toList) ∧
  (¬ Presents (authorizationText authorization) expected.toList →
    requireAgentToken expected authorization = .error invalidCredential)

/-- AUTHENTICATION: a header is let in with the token and refused without it, except that one whose
    bearer credential is not ASCII is neither. -/
theorem require_agent_token_answers {expected : String} (authorization : Option (List UInt8))
    (hne : expected ≠ "") (hascii : isAscii expected.toList = true) :
    AnswersHeader expected authorization ↔
      ∀ supplied, Presents (authorizationText authorization) supplied →
        isAscii supplied = true := by
  by_cases hpresents : ∃ supplied, Presents (authorizationText authorization) supplied
  · obtain ⟨supplied, hsupplied⟩ := hpresents
    have hthis : Presents (authorizationText authorization) expected.toList ↔
        supplied = expected.toList := ⟨hsupplied.unique, fun he => he ▸ hsupplied⟩
    rw [AnswersHeader, requireAgentToken_of_presents hsupplied, hthis]
    constructor
    · intro hanswers supplied' hsupplied'
      by_contra hbeyond
      rw [← hsupplied.unique hsupplied'] at hbeyond
      rw [compareDigest_beyond hbeyond] at hanswers
      have hnot : supplied ≠ expected.toList := fun he => hbeyond (he ▸ hascii)
      cases hanswers.2 hnot
    · intro hall
      rw [compareDigest_ascii (hall supplied hsupplied) hascii]
      by_cases he : supplied = expected.toList
      · rw [decide_eq_true he]
        exact ⟨iff_of_true rfl he, fun hnot => absurd he hnot⟩
      · rw [decide_eq_false he]
        exact ⟨iff_of_false (fun h => nomatch h) he, fun _ => rfl⟩
  · have hnone : ∀ supplied, ¬ Presents (authorizationText authorization) supplied :=
      fun supplied h => hpresents ⟨supplied, h⟩
    rw [AnswersHeader, requireAgentToken_of_not_presents hne hascii hnone]
    exact iff_of_true ⟨iff_of_false (fun h => nomatch h) (hnone _), fun _ => rfl⟩
      (fun supplied h => absurd h (hnone supplied))

/-- `Bearer tök`, as Latin-1. -/
def umlautHeader : List UInt8 := [66, 101, 97, 114, 101, 114, 32, 116, 0xF6, 107]

/-- That header raises TypeError. -/
theorem require_agent_token_umlaut : ¬ AnswersHeader "token" (some umlautHeader) := by
  intro h
  have herror : requireAgentToken "token" (some umlautHeader) = .error .typeError := by
    decide +kernel
  rw [AnswersHeader, herror] at h
  by_cases hpresents : Presents (authorizationText (some umlautHeader)) "token".toList
  · exact nomatch h.1.mpr hpresents
  · exact nomatch h.2 hpresents

/-- `Bearer token`. -/
def bearerHeader : List UInt8 := [66, 101, 97, 114, 101, 114, 32, 116, 111, 107, 101, 110]

/-- That header presents the token and is let in. -/
theorem require_agent_token_bearer : AnswersHeader "token" (some bearerHeader) ∧
    requireAgentToken "token" (some bearerHeader) = .ok () := by
  have hpresents : Presents (authorizationText (some bearerHeader)) "token".toList :=
    ⟨"Bearer".toList, by decide, map_lowerLatin1_eq_bearer.mp (by decide), by decide +kernel⟩
  have hanswers : AnswersHeader "token" (some bearerHeader) := by
    refine (require_agent_token_answers _ (by decide) (by decide +kernel)).mpr ?_
    intro supplied hsupplied
    rw [hsupplied.unique hpresents]
    decide +kernel
  exact ⟨hanswers, hanswers.1.mpr hpresents⟩

end FleetPulse
