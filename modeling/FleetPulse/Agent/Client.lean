import FleetPulse.Agent.SpoolQueue

/-! When the agent tries again: `full_jitter_delay`, and the branch of the loop that reschedules a
    batch whose delivery has failed.

    The delay is drawn below `min(cap, base * 2 ** attempts)`. Python computes the power as an exact
    integer and converts it to a double before the multiplication, so from the attempt on where the
    power is beyond the double range the branch itself raises. -/

namespace FleetPulse
open Values

/-- The settings of the agent that its loop reads. -/
structure AgentSettings where
  agentId : String
  hostname : String
  batchSize : ℕ
  limits : SpoolLimits
  retryBaseSeconds : PyFloat
  retryCapSeconds : PyFloat
  batchSize_pos : 1 ≤ batchSize
  batchSize_le : batchSize ≤ 100
  maxBatches_pos : 1 ≤ limits.maxBatches
  maxBytes_ge : 1024 ≤ limits.maxBytes
  base_pos : PyFloat.lt (.finite 0) retryBaseSeconds = true
  cap_pos : PyFloat.lt (.finite 0) retryCapSeconds = true

/-! ### Doubles -/

/-- The greatest finite double. -/
def maxFloat : ℚ := (2 ^ 53 - 1) * 2 ^ 971

/-- `float(k)` of a power of two: exact, or beyond the double range. -/
def floatOfPower (k : ℕ) : Except PyError ℚ :=
  if (2 : ℚ) ^ k ≤ maxFloat then .ok (2 ^ k) else .error .overflow

/-- A double times a power of two: exact, or infinite. -/
def timesPower : PyFloat → ℚ → PyFloat
  | .finite q, power =>
    if maxFloat < q * power then .posInf
    else if q * power < -maxFloat then .negInf
    else .finite (q * power)
  | x, _ => x

/-- `min(x, y)`: the first one unless the second is less. -/
def pyMin (x y : PyFloat) : PyFloat := if y.lt x then y else x

theorem two_pow_le_maxFloat {k : ℕ} : (2 : ℚ) ^ k ≤ maxFloat ↔ k ≤ 1023 := by
  have hscale : (0 : ℚ) < 2 ^ 971 := by positivity
  have hlow : (2 : ℚ) ^ 1023 ≤ maxFloat := by
    calc (2 : ℚ) ^ 1023 = 2 ^ 52 * 2 ^ 971 := by rw [← pow_add]
      _ ≤ maxFloat := mul_le_mul_of_nonneg_right (by norm_num) hscale.le
  have hhigh : maxFloat < (2 : ℚ) ^ 1024 := by
    calc maxFloat < 2 ^ 53 * 2 ^ 971 := mul_lt_mul_of_pos_right (by norm_num) hscale
      _ = 2 ^ 1024 := by rw [← pow_add]
  constructor
  · intro h
    by_contra hk
    exact absurd (hhigh.trans_le (pow_le_pow_right₀ one_le_two (by omega : 1024 ≤ k)))
      (not_lt.mpr h)
  · exact fun hk => (pow_le_pow_right₀ one_le_two hk).trans hlow

/-! ### full_jitter_delay -/

/-- `full_jitter_delay`, with what `random.uniform` returns. -/
def fullJitterDelay (uniform : PyFloat → PyFloat → PyFloat) (attempt : ℤ)
    (baseSeconds capSeconds : PyFloat) : Except PyError PyFloat := do
  let power ← floatOfPower (max 0 attempt).toNat
  let ceiling := pyMin capSeconds (timesPower baseSeconds power)
  return uniform (.finite 0) ceiling

/-- The `except` branch of the loop: `error` names the exception, `now` is the clock reading and
    `add` the addition of doubles. -/
def deliveryFailed (settings : AgentSettings) (uniform add : PyFloat → PyFloat → PyFloat)
    (now : PyFloat) (error : String) (pending : PendingBatch) (c : Connection) :
    Except PyError Connection := do
  let delay ← fullJitterDelay uniform pending.attempts settings.retryBaseSeconds
    settings.retryCapSeconds
  let (_, c) ← (SpoolCall.markFailed pending.batch.batchId error (add now delay)).runFor
    settings.limits .first 2 c
  return c

section
variable {uniform : PyFloat → PyFloat → PyFloat} {base cap : ℚ} {n : ℕ}

/-- The ceiling of the delay is that of the rationals. -/
theorem ceiling_eq (hbase : 0 < base) (hcap : cap ≤ maxFloat) :
    pyMin (.finite cap) (timesPower (.finite base) (2 ^ n)) = .finite (min cap (base * 2 ^ n)) := by
  have hpos : 0 < base * 2 ^ n := by positivity
  have hmax : (0 : ℚ) < maxFloat := mul_pos (by norm_num) (by positivity)
  simp only [timesPower]
  by_cases hover : maxFloat < base * 2 ^ n
  · rw [if_pos hover, min_eq_left (hcap.trans hover.le)]
    rfl
  · rw [if_neg hover, if_neg (by linarith)]
    by_cases hlt : base * 2 ^ n < cap
    · rw [min_eq_right hlt.le, pyMin, if_pos (by simpa [PyFloat.lt] using hlt)]
    · rw [min_eq_left (not_lt.mp hlt), pyMin, if_neg (by simpa [PyFloat.lt] using hlt)]

theorem finite_of_le {a b : ℚ} {x : PyFloat} (ha : PyFloat.le (.finite a) x = true)
    (hb : PyFloat.le x (.finite b) = true) : ∃ q, x = .finite q ∧ a ≤ q ∧ q ≤ b := by
  cases x with
  | finite q =>
    simp only [PyFloat.le, PyFloat.lt, Bool.or_eq_true, Bool.and_eq_true, decide_eq_true_eq,
      PyFloat.finite.injEq] at ha hb
    exact ⟨q, rfl, ha.elim le_of_lt (fun h => h.2.le), hb.elim le_of_lt (fun h => h.2.le)⟩
  | nan => simp [PyFloat.le, PyFloat.lt] at ha
  | posInf => simp [PyFloat.le, PyFloat.lt] at hb
  | negInf => simp [PyFloat.le, PyFloat.lt] at ha

/-- Up to 1023 attempts there is a delay, between nothing and the ceiling; after that the conversion
    raises. -/
theorem fullJitterDelay_cases (hbase : 0 < base) (hcap : 0 < cap) (hdouble : cap ≤ maxFloat)
    (huniform : ∀ a b, a.le b = true → a.le (uniform a b) = true ∧ (uniform a b).le b = true) :
    (n ≤ 1023 ∧ ∃ delay, fullJitterDelay uniform n (.finite base) (.finite cap) =
      .ok (.finite delay) ∧ 0 ≤ delay ∧ delay ≤ min cap (base * 2 ^ n)) ∨
    (1023 < n ∧ fullJitterDelay uniform n (.finite base) (.finite cap) = .error .overflow) := by
  have hn : (max 0 (n : ℤ)).toNat = n := by omega
  rcases le_or_gt n 1023 with hle | hlt
  · refine Or.inl ⟨hle, ?_⟩
    have hceiling : (0 : ℚ) ≤ min cap (base * 2 ^ n) := le_min hcap.le (by positivity)
    have hbounds := huniform (.finite 0) (.finite (min cap (base * 2 ^ n)))
      (by rcases hceiling.lt_or_eq with h | h <;> simp [PyFloat.le, PyFloat.lt, h])
    obtain ⟨delay, hdelay, hlow, hhigh⟩ := finite_of_le hbounds.1 hbounds.2
    refine ⟨delay, ?_, hlow, hhigh⟩
    simp only [fullJitterDelay, hn, floatOfPower, if_pos (two_pow_le_maxFloat.mpr hle), bind,
      Except.bind, ceiling_eq hbase hdouble, hdelay]
    rfl
  · refine Or.inr ⟨hlt, ?_⟩
    have hover : ¬ (2 : ℚ) ^ n ≤ maxFloat := fun h => absurd (two_pow_le_maxFloat.mp h) (by omega)
    simp only [fullJitterDelay, hn, floatOfPower, if_neg hover, bind, Except.bind]

end

/-! ### The failure branch -/

/-- What the branch is for: a delay within the bounds is drawn, the row of the batch has one more
    attempt and is due after the delay, and nothing else changes. -/
def Reschedules (settings : AgentSettings) (uniform add : PyFloat → PyFloat → PyFloat)
    (now : PyFloat) (error : String) (pending : PendingBatch) (c : Connection) (base cap : ℚ) :
    Prop :=
  ∃ delay c', fullJitterDelay uniform pending.attempts settings.retryBaseSeconds
      settings.retryCapSeconds = .ok (.finite delay) ∧
    0 ≤ delay ∧ delay ≤ min cap (base * 2 ^ pending.attempts) ∧
    deliveryFailed settings uniform add now error pending c = .ok c' ∧
    c'.durable = c'.working ∧
    c'.working.rows = c.working.rows.map (fun r =>
      if r.batchId = pending.batch.batchId.str then
        { r with attempts := pending.attempts + 1, nextAttemptAt := add now (.finite delay),
                 lastError := some (String.ofList (error.toList.take 1000)) }
      else r)

section
variable {limits : SpoolLimits} {oldest : Oldest} {c : Connection}

/-- `mark_failed` of a time that is a number updates the row and commits. -/
theorem markFailed_runs (batchId : UUID) (error : String) {nextAttemptAt : PyFloat}
    (h : nextAttemptAt ≠ .nan) :
    (SpoolCall.markFailed batchId error nextAttemptAt).runFor limits oldest 2 c =
      .ok (.done 0, .connect (updateFailed batchId.str error nextAttemptAt c.working)) := by
  simp only [SpoolCall.markFailed, SpoolCall.runFor, SpoolCall.step, h, false_and, if_false,
    Except.bind, Connection.connect]

/-- The counter that the branch read is that of the row it updates. -/
theorem rows_rescheduled {pending : PendingBatch} (error : String) (nextAttemptAt : PyFloat)
    (hrow : ∃ r ∈ c.working.rows, r.batchId = pending.batch.batchId.str ∧
      r.attempts = pending.attempts) :
    (updateFailed pending.batch.batchId.str error nextAttemptAt c.working).rows =
      c.working.rows.map (fun r =>
        if r.batchId = pending.batch.batchId.str then
          { r with attempts := pending.attempts + 1, nextAttemptAt,
                   lastError := some (String.ofList (error.toList.take 1000)) }
        else r) := by
  obtain ⟨row, hmem, hid, hattempts⟩ := hrow
  rw [rows_updateFailed]
  refine List.map_congr_left (fun r hr => ?_)
  by_cases h : r.batchId = pending.batch.batchId.str
  · obtain rfl : r = row := c.working.eq_of_key_eq hr hmem (h.trans hid.symm)
    rw [if_pos h, if_pos h, SpoolRow.fail, hattempts]
  · rw [if_neg h, if_neg h]

end

/-- RESCHEDULED: the branch does its work as long as the power is a double, and no longer. -/
theorem failed_delivery_rescheduled (settings : AgentSettings)
    (uniform add : PyFloat → PyFloat → PyFloat) (now : PyFloat) (error : String)
    (pending : PendingBatch) (c : Connection) {base cap : ℚ}
    (hbase : settings.retryBaseSeconds = .finite base)
    (hcap : settings.retryCapSeconds = .finite cap) (hdouble : cap ≤ maxFloat)
    (huniform : ∀ a b, a.le b = true → a.le (uniform a b) = true ∧ (uniform a b).le b = true)
    (hadd : ∀ delay, add now (.finite delay) ≠ .nan)
    (hrow : ∃ r ∈ c.working.rows, r.batchId = pending.batch.batchId.str ∧
      r.attempts = pending.attempts) :
    Reschedules settings uniform add now error pending c base cap ↔ pending.attempts ≤ 1023 := by
  have hbasePos : 0 < base := by
    simpa [hbase, PyFloat.lt] using settings.base_pos
  have hcapPos : 0 < cap := by
    simpa [hcap, PyFloat.lt] using settings.cap_pos
  rcases fullJitterDelay_cases hbasePos hcapPos hdouble huniform with
    ⟨hle, delay, hdelay, hlow, hhigh⟩ | ⟨hlt, hraises⟩
  · refine ⟨fun _ => hle, fun _ => ⟨delay, .connect (updateFailed pending.batch.batchId.str error
      (add now (.finite delay)) c.working), ?_, hlow, hhigh, ?_, rfl, ?_⟩⟩
    · rw [hbase, hcap, hdelay]
    · simp only [deliveryFailed, hbase, hcap, hdelay, bind, Except.bind,
        markFailed_runs pending.batch.batchId error (hadd delay)]
      rfl
    · exact rows_rescheduled error _ hrow
  · refine ⟨fun hreschedules => ?_, fun hle => absurd hle (by omega)⟩
    obtain ⟨delay, c', hdelay, -⟩ := hreschedules
    rw [hbase, hcap, hraises] at hdelay
    cases hdelay

/-! ### A batch that has failed for long -/

/-- The defaults. -/
def plainSettings : AgentSettings :=
  ⟨"node-1", "host-1", 6, ⟨1000, 67108864⟩, .finite 1, .finite 60, by decide, by decide, by decide,
    by decide, by decide +kernel, by decide +kernel⟩

/-- The spool with one row, after so many attempts. -/
def triedSpool (attempts : ℕ) : Connection :=
  .connect ⟨[{ spoolRow plainBytes 100 calmBatch with attempts }], List.nodup_singleton _⟩

/-- The sum of two doubles that need no rounding. -/
def exactSum : PyFloat → PyFloat → PyFloat
  | .finite a, .finite b => .finite (a + b)
  | x, _ => x

theorem le_of_le_refl {a b : PyFloat} (h : a.le b = true) :
    a.le b = true ∧ PyFloat.le b b = true := by
  refine ⟨h, ?_⟩
  cases b <;> cases a <;> simp_all [PyFloat.le, PyFloat.lt]

theorem tried_row (attempts : ℕ) : ∃ r ∈ (triedSpool attempts).working.rows,
    r.batchId = calmBatch.batchId.str ∧ r.attempts = attempts :=
  ⟨_, List.mem_singleton_self _, rfl, rfl⟩

theorem sixty_le_maxFloat : (60 : ℚ) ≤ maxFloat :=
  (by norm_num : (60 : ℚ) ≤ 2 ^ 6).trans (two_pow_le_maxFloat.mpr (by norm_num))

theorem failed_delivery_rescheduled_thrice :
    Reschedules plainSettings (fun _ b => b) exactSum (.finite 200) "ConnectError" ⟨calmBatch, 3⟩
      (triedSpool 3) 1 60 ↔ 3 ≤ 1023 :=
  failed_delivery_rescheduled plainSettings (fun _ b => b) exactSum (.finite 200) "ConnectError"
    ⟨calmBatch, 3⟩ (triedSpool 3) rfl rfl sixty_le_maxFloat (fun _ _ => le_of_le_refl)
    (fun _ h => by cases h) (tried_row 3)

/-- At the 1025th failure the branch raises OverflowError, and the loop is left. -/
theorem delivery_not_rescheduled : ¬ ∀ n : ℕ,
    Reschedules plainSettings (fun _ b => b) exactSum (.finite 200) "ConnectError" ⟨calmBatch, n⟩
      (triedSpool n) 1 60 := by
  intro h
  obtain ⟨delay, c', hdelay, -⟩ := h 1024
  rcases fullJitterDelay_cases (n := 1024) one_pos (by norm_num) sixty_le_maxFloat
    (fun _ _ => le_of_le_refl) with ⟨hle, -⟩ | ⟨-, hraises⟩
  · omega
  · exact absurd (hdelay.symm.trans hraises) (by rintro ⟨⟩)

end FleetPulse
