import FleetPulse.Lib.Loops
import FleetPulse.Telemetry

/-! `_post_with_retry` of the OpenAI provider.

    The variable `response` outlives a round of the loop, and the second `raise_for_status` of a
    round reads whatever is in it. A response therefore carries the post that it answers, and every
    reading of the variable is noted with the round it happens in. -/

namespace FleetPulse
open Loops

/-- What one `client.post` comes to; a body that is no JSON is `none`. -/
inductive Attempt where
  | response (statusCode : ℕ) (body : Option Payload)
  | timeoutException
  | networkError
  | exception (name : String)

/-- What the call raises. -/
inductive PostError where
  | timeoutException
  | networkError
  | exception (name : String)
  | httpStatusError (statusCode : ℕ)
  | jsonDecodeError
  | overflowError
  | unboundLocalError
  | runtimeError (message : String)

structure Response where
  statusCode : ℕ
  body : Option Payload
  /-- The post it answers, counted from 0. -/
  post : ℕ

/-- The local variables, and what has happened. -/
structure Frame where
  response : Option Response
  posts : ℕ
  /-- Each reading of `response`: the round it is in, and the post whose answer it reads. -/
  reads : List (ℕ × ℕ)

def Frame.empty : Frame := ⟨none, 0, []⟩

/-- `client.post(..)` is called. -/
def Frame.posted (frame : Frame) : Frame := { frame with posts := frame.posts + 1 }

/-- `response` is read in a round. -/
def Frame.reading (frame : Frame) (attempt : ℕ) (response : Response) : Frame :=
  { frame with reads := frame.reads ++ [(attempt, response.post)] }

/-- `status_code not in {408, 409, 429} and status_code < 500`. -/
def isFinal (statusCode : ℕ) : Bool :=
  decide (statusCode ∉ [408, 409, 429]) && decide (statusCode < 500)

/-- `min(0.25 * (2**attempt), 2.0)`: from the power 1024 on it is too large for a float. -/
def backoff (attempt : ℕ) : Option (Except PostError Payload) :=
  if 1024 ≤ attempt then some (.error .overflowError) else none

section
variable (raisesForStatus : ℕ → Bool) (maxRetries : ℤ) (outcome : ℕ → Attempt)

/-- `response.raise_for_status()`, and `return response.json()`. -/
def finalAnswer (statusCode : ℕ) (body : Option Payload) : Except PostError Payload :=
  if raisesForStatus statusCode then .error (.httpStatusError statusCode)
  else match body with
    | some data => .ok data
    | none => .error .jsonDecodeError

/-- A round after its `try`. -/
def afterTry (attempt : ℕ) (frame : Frame) : Frame × Option (Except PostError Payload) :=
  if maxRetries ≤ attempt then
    match frame.response with
    | none => (frame, some (.error .unboundLocalError))
    | some response =>
      if raisesForStatus response.statusCode then
        (frame.reading attempt response, some (.error (.httpStatusError response.statusCode)))
      else (frame.reading attempt response, backoff attempt)
  else (frame, backoff attempt)

/-- One round of the loop. -/
def attemptPost (attempt : ℕ) (frame : Frame) : Frame × Option (Except PostError Payload) :=
  match outcome attempt with
  | .exception name => (frame.posted, some (.error (.exception name)))
  | .timeoutException =>
    if maxRetries ≤ attempt then (frame.posted, some (.error .timeoutException))
    else afterTry raisesForStatus maxRetries attempt frame.posted
  | .networkError =>
    if maxRetries ≤ attempt then (frame.posted, some (.error .networkError))
    else afterTry raisesForStatus maxRetries attempt frame.posted
  | .response statusCode body =>
    let response : Response := ⟨statusCode, body, frame.posts⟩
    let frame := { frame.posted with response := some response }.reading attempt response
    if isFinal statusCode then (frame, some (finalAnswer raisesForStatus statusCode body))
    else afterTry raisesForStatus maxRetries attempt frame

/-- `_post_with_retry(payload)`: what it leaves behind, and what it returns or raises. -/
def postWithRetry : Frame × Except PostError Payload :=
  match forRange (attemptPost raisesForStatus maxRetries outcome) 0 (maxRetries + 1).toNat .empty with
  | (frame, some result) => (frame, result)
  | (frame, none) =>
    (frame, .error (.runtimeError "provider retry loop ended unexpectedly"))

end

/-! ### The loop -/

/-- The outcomes after which another post may be made. -/
def Attempt.Retryable : Attempt → Prop
  | .response statusCode _ =>
    statusCode = 408 ∨ statusCode = 409 ∨ statusCode = 429 ∨ 500 ≤ statusCode
  | .timeoutException => True
  | .networkError => True
  | .exception _ => False

/-- What only the loop itself raises: its end, and a `response` that no round has bound. -/
def PostError.OfLoop : PostError → Prop
  | .runtimeError _ => True
  | .unboundLocalError => True
  | _ => False

/-- The state in which round `attempt` begins. -/
structure Retried (maxRetries : ℤ) (outcome : ℕ → Attempt) (attempt : ℕ) (frame : Frame) :
    Prop where
  inRange : (attempt : ℤ) ≤ max 0 maxRetries
  posts : frame.posts = attempt
  retryable : ∀ i < attempt, (outcome i).Retryable
  ownReads : ∀ r ∈ frame.reads, r.1 = r.2

/-- The state after the `try` of round `attempt`: in the last round `response` is its own. -/
structure Tried (maxRetries : ℤ) (outcome : ℕ → Attempt) (attempt : ℕ) (frame : Frame) :
    Prop where
  posts : frame.posts = attempt + 1
  retryable : ∀ i < attempt + 1, (outcome i).Retryable
  ownReads : ∀ r ∈ frame.reads, r.1 = r.2
  ownResponse : maxRetries ≤ attempt → ∃ response, frame.response = some response ∧
    response.post = attempt ∧ isFinal response.statusCode = false

/-- The state in which round `attempt` leaves the loop. -/
structure Answered (outcome : ℕ → Attempt) (attempt : ℕ) (frame : Frame)
    (result : Except PostError Payload) : Prop where
  posts : frame.posts = attempt + 1
  retryable : ∀ i < attempt, (outcome i).Retryable
  ownReads : ∀ r ∈ frame.reads, r.1 = r.2
  success : ∀ data, result = .ok data → ∃ statusCode, 200 ≤ statusCode ∧ statusCode ≤ 299 ∧
    outcome attempt = .response statusCode (some data)
  notOfLoop : ∀ error, result = .error error → ¬ error.OfLoop

/-- A round goes on to the next one or leaves the loop. -/
def RoundEnd (maxRetries : ℤ) (outcome : ℕ → Attempt) (attempt : ℕ) :
    Frame × Option (Except PostError Payload) → Prop
  | (frame, none) => Retried maxRetries outcome (attempt + 1) frame
  | (frame, some result) => Answered outcome attempt frame result

/-- What `httpx` promises of `raise_for_status`. -/
def RaisesOutside2xx (raisesForStatus : ℕ → Bool) : Prop :=
  ∀ statusCode, ¬ (200 ≤ statusCode ∧ statusCode ≤ 299) → raisesForStatus statusCode = true

section
variable {raisesForStatus : ℕ → Bool} {maxRetries : ℤ} {outcome : ℕ → Attempt} {attempt : ℕ}
  {frame frame' : Frame} {result : Except PostError Payload}

theorem isFinal_eq_false {statusCode : ℕ} : isFinal statusCode = false ↔
    statusCode = 408 ∨ statusCode = 409 ∨ statusCode = 429 ∨ 500 ≤ statusCode := by
  simp only [isFinal, Bool.and_eq_false_iff, decide_eq_false_iff_not, List.mem_cons,
    List.not_mem_nil, or_false]
  omega

/-- A retryable status is no success. -/
theorem raises_of_not_final (hraises : RaisesOutside2xx raisesForStatus) {statusCode : ℕ}
    (h : isFinal statusCode = false) : raisesForStatus statusCode = true := by
  have hstatus := isFinal_eq_false.mp h
  exact hraises statusCode (by omega)

theorem retryable_succ (hretryable : ∀ i < attempt, (outcome i).Retryable)
    (h : (outcome attempt).Retryable) : ∀ i < attempt + 1, (outcome i).Retryable := by
  intro i hi
  rcases Nat.lt_succ_iff_lt_or_eq.mp hi with hlt | rfl
  · exact hretryable i hlt
  · exact h

theorem ownReads_reading (hreads : ∀ r ∈ frame.reads, r.1 = r.2) {response : Response}
    (h : response.post = attempt) : ∀ r ∈ (frame.reading attempt response).reads, r.1 = r.2 := by
  intro r hr
  rcases List.mem_append.mp hr with hr | hr
  · exact hreads r hr
  · obtain rfl := List.mem_singleton.mp hr
    exact h.symm

/-- Between two rounds there is only the pause. -/
theorem Tried.backoff (h : Tried maxRetries outcome attempt frame)
    (hlt : (attempt : ℤ) < maxRetries) :
    RoundEnd maxRetries outcome attempt (frame, FleetPulse.backoff attempt) := by
  by_cases hlarge : 1024 ≤ attempt
  · rw [FleetPulse.backoff, if_pos hlarge]
    refine ⟨h.posts, fun i hi => h.retryable i (by omega), h.ownReads, nofun, ?_⟩
    rintro error ⟨⟩
    exact id
  · rw [FleetPulse.backoff, if_neg hlarge]
    exact ⟨by push_cast; omega, h.posts, h.retryable, h.ownReads⟩

/-- After the `try` of the last round the status is raised, and it is the round's own. -/
theorem Tried.afterTry (hraises : RaisesOutside2xx raisesForStatus)
    (h : Tried maxRetries outcome attempt frame) :
    RoundEnd maxRetries outcome attempt (afterTry raisesForStatus maxRetries attempt frame) := by
  by_cases hlast : maxRetries ≤ attempt
  · obtain ⟨response, hresponse, hpost, hfinal⟩ := h.ownResponse hlast
    simp only [FleetPulse.afterTry, if_pos hlast, hresponse,
      if_pos (raises_of_not_final hraises hfinal)]
    refine ⟨h.posts, fun i hi => h.retryable i (by omega), ownReads_reading h.ownReads hpost,
      nofun, ?_⟩
    rintro error ⟨⟩
    exact id
  · rw [FleetPulse.afterTry, if_neg hlast]
    exact h.backoff (by omega)

/-- A post that raises leaves the loop. -/
theorem Retried.raised {error : PostError} (h : Retried maxRetries outcome attempt frame)
    (hloop : ¬ error.OfLoop) : Answered outcome attempt frame.posted (.error error) := by
  refine ⟨congrArg (· + 1) h.posts, h.retryable, h.ownReads, nofun, ?_⟩
  rintro error ⟨⟩
  exact hloop

/-- A timeout or a network error is raised in the last round only. -/
theorem Retried.interrupted {error : PostError} (hraises : RaisesOutside2xx raisesForStatus)
    (h : Retried maxRetries outcome attempt frame) (hretry : (outcome attempt).Retryable)
    (hloop : ¬ error.OfLoop) : RoundEnd maxRetries outcome attempt
      (if maxRetries ≤ attempt then (frame.posted, some (.error error))
        else FleetPulse.afterTry raisesForStatus maxRetries attempt frame.posted) := by
  by_cases hlast : maxRetries ≤ attempt
  · rw [if_pos hlast]
    exact h.raised hloop
  · rw [if_neg hlast]
    exact Tried.afterTry hraises ⟨congrArg (· + 1) h.posts, retryable_succ h.retryable hretry,
      h.ownReads, fun hle => absurd hle hlast⟩

/-- Data is returned for a status of success and a body that is JSON. -/
theorem finalAnswer_cases (hraises : RaisesOutside2xx raisesForStatus) (statusCode : ℕ)
    (body : Option Payload) :
    (∃ data, finalAnswer raisesForStatus statusCode body = .ok data ∧ body = some data ∧
      200 ≤ statusCode ∧ statusCode ≤ 299) ∨
    ∃ error, finalAnswer raisesForStatus statusCode body = .error error ∧ ¬ error.OfLoop := by
  by_cases hstatus : raisesForStatus statusCode = true
  · exact Or.inr ⟨_, if_pos hstatus, id⟩
  · have hsuccess : 200 ≤ statusCode ∧ statusCode ≤ 299 := by
      by_contra hout
      exact hstatus (hraises statusCode hout)
    cases body with
    | none => exact Or.inr ⟨_, if_neg hstatus, id⟩
    | some data => exact Or.inl ⟨data, if_neg hstatus, rfl, hsuccess⟩

/-- What one round preserves. -/
theorem Retried.round (hraises : RaisesOutside2xx raisesForStatus)
    (h : Retried maxRetries outcome attempt frame) :
    RoundEnd maxRetries outcome attempt
      (attemptPost raisesForStatus maxRetries outcome attempt frame) := by
  rw [attemptPost]
  cases hout : outcome attempt with
  | exception name => exact h.raised id
  | timeoutException => exact h.interrupted hraises (by rw [hout]; trivial) id
  | networkError => exact h.interrupted hraises (by rw [hout]; trivial) id
  | response statusCode body =>
    let response : Response := ⟨statusCode, body, frame.posts⟩
    have hreads : ∀ r ∈ (Frame.reading { frame.posted with response := some response } attempt
        response).reads, r.1 = r.2 := ownReads_reading h.ownReads h.posts
    by_cases hfinal : isFinal statusCode = true
    · simp only [if_pos hfinal]
      refine ⟨congrArg (· + 1) h.posts, h.retryable, hreads, ?_, ?_⟩
      · intro data hdata
        obtain ⟨data', hok, rfl, hlow, hhigh⟩ | ⟨error, herror, -⟩ :=
          finalAnswer_cases hraises statusCode body
        · obtain rfl := Except.ok.inj (hok.symm.trans hdata)
          exact ⟨statusCode, hlow, hhigh, hout⟩
        · exact nomatch herror.symm.trans hdata
      · intro error herror
        obtain ⟨data, hok, -⟩ | ⟨error', herror', hloop⟩ := finalAnswer_cases hraises statusCode body
        · exact nomatch hok.symm.trans herror
        · exact Except.error.inj (herror'.symm.trans herror) ▸ hloop
    · simp only [if_neg hfinal]
      have hstatus : isFinal statusCode = false := Bool.eq_false_iff.mpr hfinal
      have hretry : (outcome attempt).Retryable := by
        rw [hout]
        exact isFinal_eq_false.mp hstatus
      exact Tried.afterTry hraises ⟨congrArg (· + 1) h.posts, retryable_succ h.retryable hretry,
        hreads, fun _ => ⟨response, rfl, h.posts, hstatus⟩⟩

theorem retryRule (hraises : RaisesOutside2xx raisesForStatus) (maxRetries : ℤ)
    (outcome : ℕ → Attempt) (stop : ℕ) : Rule (attemptPost raisesForStatus maxRetries outcome) stop
      (Retried maxRetries outcome) (Answered outcome) where
  continues _ h hround := by
    have hend := h.round hraises
    rwa [hround] at hend
  leaves _ h hround := by
    have hend := h.round hraises
    rwa [hround] at hend

/-- What is left of a whole call: the loop was left in some round, or there was none. -/
theorem postWithRetry_cases (hraises : RaisesOutside2xx raisesForStatus) (maxRetries : ℤ)
    (outcome : ℕ → Attempt) :
    (maxRetries < 0 ∧ postWithRetry raisesForStatus maxRetries outcome =
      (.empty, .error (.runtimeError "provider retry loop ended unexpectedly"))) ∨
    ∃ last : ℕ, (last : ℤ) ≤ maxRetries ∧
      Answered outcome last (postWithRetry raisesForStatus maxRetries outcome).1
        (postWithRetry raisesForStatus maxRetries outcome).2 := by
  by_cases hneg : maxRetries < 0
  · have hzero : (maxRetries + 1).toNat = 0 := by omega
    refine Or.inl ⟨hneg, ?_⟩
    rw [postWithRetry, hzero]
    rfl
  · have hstart : Retried maxRetries outcome 0 .empty := ⟨by push_cast; omega, rfl, nofun, nofun⟩
    obtain ⟨frame, -, hend⟩ | ⟨last, frame, result, hlast, hloop, hanswered⟩ :=
      (retryRule hraises maxRetries outcome (maxRetries + 1).toNat).forRange (zero_add _) hstart
    · have hrange := hend.inRange
      omega
    · refine Or.inr ⟨last, by omega, ?_⟩
      rw [postWithRetry, hloop]
      exact hanswered

end

/-- RETRIES: the posts are bounded and each but the last failed in a way that may be retried, data
    comes from a 2xx answer to the last one, the loop runs out only without a round, and `response`
    is never the one of an earlier round. -/
theorem post_with_retry_bounded {raisesForStatus : ℕ → Bool}
    (hraises : RaisesOutside2xx raisesForStatus) (maxRetries : ℤ) (outcome : ℕ → Attempt) :
    let run := postWithRetry raisesForStatus maxRetries outcome
    (run.1.posts : ℤ) ≤ max 0 (maxRetries + 1) ∧
    (∀ i, i + 1 < run.1.posts → (outcome i).Retryable) ∧
    (∀ data, run.2 = .ok data → ∃ last statusCode, run.1.posts = last + 1 ∧
      200 ≤ statusCode ∧ statusCode ≤ 299 ∧ outcome last = .response statusCode (some data)) ∧
    ((∃ message, run.2 = .error (.runtimeError message)) ↔ maxRetries < 0) ∧
    (∀ r ∈ run.1.reads, r.1 = r.2) ∧ run.2 ≠ .error .unboundLocalError := by
  intro run
  obtain ⟨hneg, hrun⟩ | ⟨last, hlast, hanswered⟩ := postWithRetry_cases hraises maxRetries outcome
  · have hempty : run = (.empty, .error (.runtimeError "provider retry loop ended unexpectedly")) :=
      hrun
    rw [hempty]
    exact ⟨le_max_left _ _, nofun, nofun, iff_of_true ⟨_, rfl⟩ hneg, nofun, nofun⟩
  · have hposts : run.1.posts = last + 1 := hanswered.posts
    refine ⟨?_, ?_, ?_, ?_, hanswered.ownReads, ?_⟩
    · rw [hposts]
      push_cast
      omega
    · intro i hi
      exact hanswered.retryable i (by omega)
    · intro data hdata
      obtain ⟨statusCode, hlow, hhigh, hout⟩ := hanswered.success data hdata
      exact ⟨last, statusCode, hposts, hlow, hhigh, hout⟩
    · refine iff_of_false ?_ (by omega)
      rintro ⟨message, hmessage⟩
      exact hanswered.notOfLoop _ hmessage trivial
    · intro hunbound
      exact hanswered.notOfLoop _ hunbound trivial

/-- A timeout and a 503 are retried, and then the answer is returned. -/
def flakyOutcome : ℕ → Attempt
  | 0 => .timeoutException
  | 1 => .response 503 none
  | _ => .response 200 (some (.str "data"))

/-- Two retries are enough for it. -/
theorem post_with_retry_flaky :
    let run := postWithRetry (fun s => !(200 ≤ s && s ≤ 299)) 2 flakyOutcome
    run.2 = .ok (.str "data") ∧ (run.1.posts : ℤ) ≤ 3 ∧ ∀ r ∈ run.1.reads, r.1 = r.2 := by
  have hraises : RaisesOutside2xx (fun s => !(200 ≤ s && s ≤ 299)) := by
    intro statusCode hout
    simpa [imp_iff_not_or] using hout
  obtain ⟨hposts, -, -, -, hreads, -⟩ := post_with_retry_bounded hraises 2 flakyOutcome
  exact ⟨rfl, hposts, hreads⟩

end FleetPulse
