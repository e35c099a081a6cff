import FleetPulse.Agent.Client
import FleetPulse.Agent.SpoolErrors
import FleetPulse.Api.Routes

/-! `run()`: the process of the agent, statement by statement.

        looping ─▶ collecting ─▶ comparing ─▶ building ─▶ enqueue ─▶ resetting
           ▲                        │                                  │
           │                        └──────────────▶ reading ◀─────────┘
        waiting ◀─ mark_sent ◀─ sending ◀─────────────┤
           ▲                       │                  │
           ├─ mark_failed ◀─ failed┘                  │
           └──────────────────────────────────────────┘

        finishing ─▶ flush ─▶ closing ─▶ ended

    Whatever is raised outside of the delivery leads to `finishing`, and so does the stop signal, which
    sets a flag at an `await` and is seen at the head of the loop. Samples, ids, clock readings,
    answers of the API and errors come from outside and are arbitrary. -/

namespace FleetPulse
open Values

/-- What a call on the spool is made for. -/
inductive SpoolUse where
  | enqueue (batch : TelemetryBatch)
  | flush (batch : TelemetryBatch)
  | markSent (pending : PendingBatch)
  | markFailed (pending : PendingBatch)

/-- Where the process stands. -/
inductive AgentControl where
  | looping
  | collecting
  | comparing
  | building
  | calling (use : SpoolUse) (call : SpoolCall)
  | resetting
  | reading
  | sending (pending : PendingBatch)
  | failed (pending : PendingBatch) (error : String)
  | waiting
  | finishing
  | closing
  | ended

/-- The local variables of `run`: the flag `stop` and the list `samples`. -/
structure AgentLoop where
  stop : Bool
  samples : List TelemetrySample
  control : AgentControl

/-- What a step leaves in the run. -/
inductive AgentEvent where
  | internal
  | signalled
  | collected (sample : TelemetrySample)
  | drawn (batchId : UUID)
  | executed (use : SpoolUse) (statement : SpoolCall)
  | posted (batch : TelemetryBatch)
  | responded (response : IngestionResponse)
  | raised
  | spoolRaised

/-- The statement behind the call. -/
def SpoolUse.next : SpoolUse → AgentControl
  | .enqueue _ => .resetting
  | .flush _ => .closing
  | .markSent _ | .markFailed _ => .waiting

/-- Where an error of the call is handled: `mark_sent` is within the `try` of the delivery. -/
def SpoolUse.handler (error : String) : SpoolUse → AgentControl
  | .markSent pending => .failed pending error
  | .enqueue _ | .markFailed _ => .finishing
  | .flush _ => .ended

/-- The statements with an `await`. -/
def AgentControl.awaits : AgentControl → Bool
  | .sending _ | .waiting | .closing => true
  | _ => false

section
variable (libs : Libraries) (settings : AgentSettings) (textBytes : Payload → ℕ)

/-- A step of `run(settings)`. -/
inductive AgentStep : Connection → AgentLoop → AgentEvent → Connection → AgentLoop → Prop
  | signal {c stop samples control} : control.awaits = true →
      AgentStep c ⟨stop, samples, control⟩ .signalled c ⟨true, samples, control⟩
  -- while not stop.is_set()
  | enter {c samples} :
      AgentStep c ⟨false, samples, .looping⟩ .internal c ⟨false, samples, .collecting⟩
  | leave {c samples} :
      AgentStep c ⟨true, samples, .looping⟩ .internal c ⟨true, samples, .finishing⟩
  -- samples.append(collect_sample())
  | collect {c stop samples sample} : sample.valid = true →
      AgentStep c ⟨stop, samples, .collecting⟩ (.collected sample)
        c ⟨stop, samples ++ [sample], .comparing⟩
  | collectRaises {c stop samples} :
      AgentStep c ⟨stop, samples, .collecting⟩ .raised c ⟨stop, samples, .finishing⟩
  -- if len(samples) >= settings.batch_size
  | full {c stop samples} : settings.batchSize ≤ samples.length →
      AgentStep c ⟨stop, samples, .comparing⟩ .internal c ⟨stop, samples, .building⟩
  | notFull {c stop samples} : samples.length < settings.batchSize →
      AgentStep c ⟨stop, samples, .comparing⟩ .internal c ⟨stop, samples, .reading⟩
  | build {c stop samples batchId batch now} :
      TelemetryBatch.construct batchId settings.agentId settings.hostname samples = some batch →
      AgentStep c ⟨stop, samples, .building⟩ (.drawn batchId)
        c ⟨stop, samples, .calling (.enqueue batch) (.enqueue textBytes now batch)⟩
  | buildRaises {c stop samples batchId} :
      TelemetryBatch.construct batchId settings.agentId settings.hostname samples = none →
      AgentStep c ⟨stop, samples, .building⟩ (.drawn batchId) c ⟨stop, samples, .finishing⟩
  -- a call on the spool, one statement after another
  | statement {c c' stop samples use call call' oldest} : call.isOpen = true →
      call.step settings.limits oldest c = .ok (call', c') →
      AgentStep c ⟨stop, samples, .calling use call⟩ (.executed use call)
        c' ⟨stop, samples, .calling use call'⟩
  | statementRaises {c stop samples use call error} : call.isOpen = true →
      AgentStep c ⟨stop, samples, .calling use call⟩ .spoolRaised
        c ⟨stop, samples, use.handler error⟩
  | callReturns {c stop samples use dropped} :
      AgentStep c ⟨stop, samples, .calling use (.done dropped)⟩ .internal
        c ⟨stop, samples, use.next⟩
  -- samples = []
  | reset {c stop samples} :
      AgentStep c ⟨stop, samples, .resetting⟩ .internal c ⟨stop, [], .reading⟩
  -- pending = spool.next_ready()
  | readNone {c stop samples oldest now} : nextReady libs oldest now c.working = .ok none →
      AgentStep c ⟨stop, samples, .reading⟩ .internal c ⟨stop, samples, .waiting⟩
  | read {c stop samples oldest now pending} :
      nextReady libs oldest now c.working = .ok (some pending) →
      AgentStep c ⟨stop, samples, .reading⟩ (.posted pending.batch)
        c ⟨stop, samples, .sending pending⟩
  | readRaises {c stop samples oldest now error} :
      nextReady libs oldest now c.working = .error error →
      AgentStep c ⟨stop, samples, .reading⟩ .raised c ⟨stop, samples, .finishing⟩
  | queryRaises {c stop samples} :
      AgentStep c ⟨stop, samples, .reading⟩ .spoolRaised c ⟨stop, samples, .finishing⟩
  -- result = await client.send(pending.batch)
  | respond {c stop samples pending response} :
      AgentStep c ⟨stop, samples, .sending pending⟩ (.responded response)
        c ⟨stop, samples, .calling (.markSent pending) (.markSent pending.batch.batchId)⟩
  | sendRaises {c stop samples pending error} :
      AgentStep c ⟨stop, samples, .sending pending⟩ .raised c ⟨stop, samples, .failed pending error⟩
  | sendCancelled {c stop samples pending} :
      AgentStep c ⟨stop, samples, .sending pending⟩ .raised c ⟨stop, samples, .finishing⟩
  -- except Exception as error
  | reschedule {c stop samples pending error uniform delay now}
      {add : PyFloat → PyFloat → PyFloat} :
      fullJitterDelay uniform pending.attempts settings.retryBaseSeconds
        settings.retryCapSeconds = .ok delay →
      AgentStep c ⟨stop, samples, .failed pending error⟩ .internal
        c ⟨stop, samples, .calling (.markFailed pending)
          (.markFailed pending.batch.batchId error (add now delay))⟩
  | delayRaises {c stop samples pending error uniform e} :
      fullJitterDelay uniform pending.attempts settings.retryBaseSeconds
        settings.retryCapSeconds = .error e →
      AgentStep c ⟨stop, samples, .failed pending error⟩ .raised c ⟨stop, samples, .finishing⟩
  -- await asyncio.wait_for(stop.wait(), ...)
  | wait {c stop samples} :
      AgentStep c ⟨stop, samples, .waiting⟩ .internal c ⟨stop, samples, .looping⟩
  | waitCancelled {c stop samples} :
      AgentStep c ⟨stop, samples, .waiting⟩ .raised c ⟨stop, samples, .finishing⟩
  -- finally
  | nothingToFlush {c stop} :
      AgentStep c ⟨stop, [], .finishing⟩ .internal c ⟨stop, [], .closing⟩
  | flush {c stop samples batchId batch now} : samples ≠ [] →
      TelemetryBatch.construct batchId settings.agentId settings.hostname samples = some batch →
      AgentStep c ⟨stop, samples, .finishing⟩ (.drawn batchId)
        c ⟨stop, samples, .calling (.flush batch) (.enqueue textBytes now batch)⟩
  | flushRaises {c stop samples batchId} : samples ≠ [] →
      TelemetryBatch.construct batchId settings.agentId settings.hostname samples = none →
      AgentStep c ⟨stop, samples, .finishing⟩ (.drawn batchId) c ⟨stop, samples, .ended⟩
  | close {c stop samples} :
      AgentStep c ⟨stop, samples, .closing⟩ .internal (.connect c.durable) ⟨stop, samples, .ended⟩

/-- The runs of `run(settings)` on a spool. -/
inductive AgentRun (spool : Connection) : List AgentEvent → Connection → AgentLoop → Prop
  | start : AgentRun spool [] spool ⟨false, [], .looping⟩
  | step {t c l e c' l'} : AgentRun spool t c l →
      AgentStep libs settings textBytes c l e c' l' → AgentRun spool (t ++ [e]) c' l'

end

/-! ### The samples of a run -/

def AgentEvent.sample? : AgentEvent → Option TelemetrySample
  | .collected sample => some sample
  | _ => none

def AgentEvent.batchId? : AgentEvent → Option UUID
  | .drawn batchId => some batchId
  | _ => none

/-- The batch whose enqueue commits. -/
def AgentEvent.spooled? : AgentEvent → Option TelemetryBatch
  | .executed (.enqueue batch) (.committing _) => some batch
  | .executed (.flush batch) (.committing _) => some batch
  | _ => none

def collectedSamples (t : List AgentEvent) : List TelemetrySample := t.filterMap AgentEvent.sample?

def drawnIds (t : List AgentEvent) : List UUID := t.filterMap AgentEvent.batchId?

def spooledBatches (t : List AgentEvent) : List TelemetryBatch := t.filterMap AgentEvent.spooled?

namespace AgentLoop

/-- The batch of an enqueue that has not committed yet. -/
def openBatch (l : AgentLoop) : Option TelemetryBatch :=
  match l.control with
  | .calling (.enqueue batch) call | .calling (.flush batch) call =>
    if call.isOpen then some batch else none
  | _ => none

/-- The samples that are in no committed batch: between the commit and the reset, `samples` still
    holds those of the batch. -/
def unspooled (l : AgentLoop) : List TelemetrySample :=
  match l.control with
  | .calling (.enqueue _) call | .calling (.flush _) call => if call.isOpen then l.samples else []
  | .resetting | .closing | .ended => []
  | _ => l.samples

end AgentLoop

/-- How long `samples` can be. -/
def AgentControl.capacity (batchSize : ℕ) : AgentControl → ℕ
  | .comparing | .building | .calling (.enqueue _) _ | .resetting => batchSize
  | _ => batchSize - 1

/-- Where the samples of a run are: in the committed batches, and behind them in `samples`. -/
structure Accounts (settings : AgentSettings) (t : List AgentEvent) (l : AgentLoop) : Prop where
  samples : (spooledBatches t).flatMap TelemetryBatch.samples ++ l.unspooled = collectedSamples t
  valid : ∀ sample ∈ l.samples, sample.valid = true
  length : l.samples.length ≤ l.control.capacity settings.batchSize
  building : l.control = .building → l.samples ≠ []
  batch : ∀ batch, l.openBatch = some batch → batch.samples = l.samples
  ids : ((spooledBatches t).map TelemetryBatch.batchId ++
    (l.openBatch.map TelemetryBatch.batchId).toList).Sublist (drawnIds t)
  sizes : ∀ batch ∈ spooledBatches t, batch.samples.length ≤ settings.batchSize

section
variable {libs : Libraries} {settings : AgentSettings} {textBytes : Payload → ℕ}
  {spool c c' : Connection} {t : List AgentEvent} {l l' : AgentLoop} {e : AgentEvent}

/-- A statement is the commit, which is the last one, or leaves the file as it is. -/
theorem SpoolCall.step_cases {limits : SpoolLimits} {oldest : Oldest} {call call' : SpoolCall}
    (h : call.step limits oldest c = .ok (call', c')) (hopen : call.isOpen = true) :
    (∃ dropped, call = .committing dropped ∧ call' = .done dropped ∧
      c' = { c with durable := c.working }) ∨
    ((∀ dropped, call ≠ .committing dropped) ∧ call'.isOpen = true ∧ c'.durable = c.durable) := by
  cases call with
  | inserting row =>
    cases h
    exact .inr ⟨fun _ => by simp, rfl, rfl⟩
  | evicting dropped =>
    rw [SpoolCall.step] at h
    split at h <;> cases h <;> exact .inr ⟨fun _ => by simp, rfl, rfl⟩
  | deleting batchId =>
    cases h
    exact .inr ⟨fun _ => by simp, rfl, rfl⟩
  | updating batchId error nextAttemptAt =>
    rw [SpoolCall.step] at h
    split at h <;> cases h
    exact .inr ⟨fun _ => by simp, rfl, rfl⟩
  | committing dropped =>
    cases h
    exact .inl ⟨dropped, rfl, rfl, rfl⟩
  | done dropped => cases hopen

theorem batch_of_construct {batchId : UUID} {agentId hostname : String}
    {samples : List TelemetrySample} {batch : TelemetryBatch}
    (h : TelemetryBatch.construct batchId agentId hostname samples = some batch) :
    batch.batchId = batchId ∧ batch.samples = samples := by
  unfold TelemetryBatch.construct at h
  split at h
  · cases h
    exact ⟨rfl, rfl⟩
  · cases h

theorem collectedSamples_concat :
    collectedSamples (t ++ [e]) = collectedSamples t ++ e.sample?.toList := by
  rw [collectedSamples, List.filterMap_append]
  cases h : e.sample? <;> simp [h, collectedSamples]

theorem drawnIds_concat : drawnIds (t ++ [e]) = drawnIds t ++ e.batchId?.toList := by
  rw [drawnIds, List.filterMap_append]
  cases h : e.batchId? <;> simp [h, drawnIds]

theorem spooledBatches_concat :
    spooledBatches (t ++ [e]) = spooledBatches t ++ e.spooled?.toList := by
  rw [spooledBatches, List.filterMap_append]
  cases h : e.spooled? <;> simp [h, spooledBatches]

theorem capacity_le (batchSize : ℕ) (control : AgentControl) :
    control.capacity batchSize ≤ batchSize := by
  unfold AgentControl.capacity
  split <;> omega

theorem construct_ne_none {batchId : UUID} (hid : agentIdPattern settings.agentId = true)
    (hhostname : textLength 1 255 settings.hostname = true) (hne : l.samples ≠ [])
    (hlength : l.samples.length ≤ settings.batchSize)
    (hvalid : ∀ sample ∈ l.samples, sample.valid = true) :
    TelemetryBatch.construct batchId settings.agentId settings.hostname l.samples ≠ none := by
  have hpos := List.length_pos_iff.mpr hne
  have hmax := settings.batchSize_le
  have hbatch : batchValid settings.agentId settings.hostname l.samples = true := by
    simp only [batchValid, listLength, hid, hhostname, Bool.and_eq_true, decide_eq_true_eq,
      List.all_eq_true, true_and]
    exact ⟨⟨hpos, by omega⟩, hvalid⟩
  simp [TelemetryBatch.construct, hbatch]

namespace Accounts

/-- A step that collects and commits nothing and keeps what is not spooled. -/
theorem move (h : Accounts settings t l) (hsample : e.sample? = none) (hspooled : e.spooled? = none)
    (hunspooled : l'.unspooled = l.unspooled) (hsub : ∀ sample ∈ l'.samples, sample ∈ l.samples)
    (hlength : l'.samples.length ≤ l'.control.capacity settings.batchSize)
    (hbuilding : l'.control = .building → l'.samples ≠ [])
    (hopen : l'.openBatch = none ∨ l'.openBatch = l.openBatch ∧ l'.samples = l.samples) :
    Accounts settings (t ++ [e]) l' := by
  refine ⟨?_, fun sample hs => h.valid sample (hsub sample hs), hlength, hbuilding, ?_, ?_, ?_⟩
  · rw [spooledBatches_concat, collectedSamples_concat, hspooled, hsample, hunspooled]
    simpa using h.samples
  · rcases hopen with hnone | ⟨hsame, hsamples⟩
    · simp [hnone]
    · rw [hsame, hsamples]
      exact h.batch
  · have hids := h.ids.trans (List.sublist_append_left (drawnIds t) e.batchId?.toList)
    rw [spooledBatches_concat, drawnIds_concat, hspooled]
    rcases hopen with hnone | ⟨hsame, -⟩
    · simpa [hnone] using (List.sublist_append_left _ _).trans hids
    · simpa [hsame] using hids
  · simpa [spooledBatches_concat, hspooled] using h.sizes

/-- An enqueue begins with the samples as they are. -/
theorem begin {batchId : UUID} {batch : TelemetryBatch} (h : Accounts settings t l)
    (hlast : l.unspooled = l.samples) (hsamples : l'.samples = l.samples)
    (hlength : l'.samples.length ≤ l'.control.capacity settings.batchSize)
    (hbuilding : l'.control ≠ .building)
    (hbatch : TelemetryBatch.construct batchId settings.agentId settings.hostname l.samples =
      some batch) (hunspooled : l'.unspooled = l'.samples) (hopen : l'.openBatch = some batch) :
    Accounts settings (t ++ [.drawn batchId]) l' := by
  obtain ⟨hid, hbatch⟩ := batch_of_construct hbatch
  refine ⟨?_, hsamples ▸ h.valid, hlength, fun h => absurd h hbuilding, ?_, ?_, ?_⟩
  · rw [spooledBatches_concat, collectedSamples_concat, hunspooled, hsamples, ← hlast]
    simpa [AgentEvent.spooled?, AgentEvent.sample?] using h.samples
  · rw [hopen]
    rintro _ ⟨⟩
    rw [hbatch, hsamples]
  · rw [spooledBatches_concat, drawnIds_concat, hopen]
    simpa [AgentEvent.spooled?, AgentEvent.batchId?, hid] using
      (List.sublist_append_left _ _).trans h.ids
  · simpa [spooledBatches_concat, AgentEvent.spooled?] using h.sizes

/-- The commit moves the samples over to the batches. -/
theorem commit {batch : TelemetryBatch} (h : Accounts settings t l)
    (hopen : l.openBatch = some batch) (hlast : l.unspooled = l.samples)
    (hspooled : e.spooled? = some batch) (hsample : e.sample? = none)
    (hsamples : l'.samples = l.samples)
    (hlength : l'.samples.length ≤ l'.control.capacity settings.batchSize)
    (hbuilding : l'.control ≠ .building) (hunspooled : l'.unspooled = [])
    (hclosed : l'.openBatch = none) : Accounts settings (t ++ [e]) l' := by
  have hbatch := h.batch batch hopen
  refine ⟨?_, hsamples ▸ h.valid, hlength, fun h => absurd h hbuilding, ?_, ?_, ?_⟩
  · rw [spooledBatches_concat, collectedSamples_concat, hspooled, hsample, hunspooled]
    have hkept := h.samples
    rw [hlast, ← hbatch] at hkept
    simpa using hkept
  · simp [hclosed]
  · have hids := h.ids
    rw [hopen] at hids
    rw [spooledBatches_concat, drawnIds_concat, hspooled, hclosed]
    simpa using hids.trans (List.sublist_append_left _ _)
  · rw [spooledBatches_concat, hspooled]
    intro b hb
    rcases List.mem_append.mp hb with hb | hb
    · exact h.sizes b hb
    · obtain rfl : b = batch := by simpa using hb
      rw [hbatch, ← hsamples]
      exact hlength.trans (capacity_le _ _)

theorem collect {stop : Bool} {samples : List TelemetrySample} {sample : TelemetrySample}
    (h : Accounts settings t ⟨stop, samples, .collecting⟩) (hsample : sample.valid = true) :
    Accounts settings (t ++ [.collected sample]) ⟨stop, samples ++ [sample], .comparing⟩ := by
  have hlength := h.length
  have hsize := settings.batchSize_pos
  refine ⟨?_, ?_, ?_, nofun, nofun, ?_, ?_⟩
  · rw [spooledBatches_concat, collectedSamples_concat, ← h.samples]
    simp [AgentEvent.spooled?, AgentEvent.sample?, AgentLoop.unspooled]
  · intro s hs
    rcases List.mem_append.mp hs with hs | hs
    · exact h.valid s hs
    · exact List.mem_singleton.mp hs ▸ hsample
  · simp only [AgentControl.capacity, List.length_append, List.length_singleton] at hlength ⊢
    omega
  · rw [spooledBatches_concat, drawnIds_concat]
    simpa [AgentEvent.spooled?, AgentEvent.batchId?, AgentLoop.openBatch] using h.ids
  · simpa [spooledBatches_concat, AgentEvent.spooled?] using h.sizes

/-- A statement of a call; only the commit of an enqueue counts. -/
theorem statement {limits : SpoolLimits} {oldest : Oldest} {stop : Bool}
    {samples : List TelemetrySample} {use : SpoolUse} {call call' : SpoolCall}
    (h : Accounts settings t ⟨stop, samples, .calling use call⟩) (hopen : call.isOpen = true)
    (hcall : call.step limits oldest c = .ok (call', c')) :
    Accounts settings (t ++ [.executed use call]) ⟨stop, samples, .calling use call'⟩ := by
  have hlength := h.length
  rcases SpoolCall.step_cases hcall hopen with ⟨dropped, rfl, rfl, -⟩ | ⟨hcommit, hopen', -⟩
  · cases use with
    | enqueue batch | flush batch =>
      exact h.commit rfl rfl rfl rfl rfl hlength nofun rfl rfl
    | markSent pending | markFailed pending =>
      exact h.move rfl rfl rfl (fun _ h => h) hlength nofun (.inl rfl)
  · cases use with
    | enqueue batch | flush batch =>
      refine h.move rfl ?_ ?_ (fun _ h => h) hlength nofun (.inr ⟨?_, rfl⟩)
      · cases call <;> first | rfl | exact absurd rfl (hcommit _)
      · simp [AgentLoop.unspooled, hopen, hopen']
      · simp [AgentLoop.openBatch, hopen, hopen']
    | markSent pending | markFailed pending =>
      exact h.move rfl rfl rfl (fun _ h => h) hlength nofun (.inl rfl)

/-- One step: nothing is lost, as long as the spool does not raise. -/
theorem step (h : Accounts settings t l) (hid : agentIdPattern settings.agentId = true)
    (hhostname : textLength 1 255 settings.hostname = true)
    (hstep : AgentStep libs settings textBytes c l e c' l') (hspool : e ≠ .spoolRaised) :
    Accounts settings (t ++ [e]) l' := by
  have hlength := h.length
  have hsize := settings.batchSize_pos
  cases hstep with
  | signal =>
    exact h.move rfl rfl rfl (fun _ h => h) hlength h.building (.inr ⟨rfl, rfl⟩)
  | collect hsample => exact h.collect hsample
  | full hfull =>
    exact h.move rfl rfl rfl (fun _ h => h) hlength
      (fun _ => List.length_pos_iff.mp (hsize.trans hfull)) (.inl rfl)
  | notFull hroom =>
    exact h.move rfl rfl rfl (fun _ h => h) (Nat.le_sub_one_of_lt hroom) nofun (.inl rfl)
  | build hbatch => exact h.begin rfl rfl hlength nofun hbatch rfl rfl
  | buildRaises hnone =>
    exact absurd hnone (construct_ne_none hid hhostname (h.building rfl) hlength h.valid)
  | statement hopen hcall => exact h.statement hopen hcall
  | statementRaises | queryRaises => exact absurd rfl hspool
  | @callReturns _ _ use _ =>
    cases use with
    | enqueue | flush | markSent | markFailed =>
      exact h.move rfl rfl rfl (fun _ h => h) hlength nofun (.inl rfl)
  | reset => exact h.move rfl rfl rfl (by simp) (by simp) nofun (.inl rfl)
  | enter | leave | collectRaises | readNone | read | readRaises | respond | sendRaises
  | sendCancelled | reschedule | delayRaises | wait | waitCancelled | nothingToFlush | close =>
    exact h.move rfl rfl rfl (fun _ h => h) hlength nofun (.inl rfl)
  | flush hne hbatch => exact h.begin rfl rfl hlength nofun hbatch rfl rfl
  | flushRaises hne hnone =>
    exact absurd hnone (construct_ne_none hid hhostname hne (hlength.trans (capacity_le _ _))
      h.valid)

end Accounts

/-- Every run, as long as the spool does not raise. -/
theorem AgentRun.accounts (h : AgentRun libs settings textBytes spool t c l)
    (hid : agentIdPattern settings.agentId = true)
    (hhostname : textLength 1 255 settings.hostname = true) (hspool : AgentEvent.spoolRaised ∉ t) :
    Accounts settings t l := by
  induction h with
  | start =>
    exact ⟨rfl, by simp, Nat.zero_le _, nofun, nofun, by simp [spooledBatches, AgentLoop.openBatch],
      by simp [spooledBatches]⟩
  | step hrun hstep ih =>
    rw [List.mem_append, List.mem_singleton, not_or] at hspool
    exact (ih hspool.1).step hid hhostname hstep (Ne.symm hspool.2)

end

/-- SPOOLED ONCE: as long as the spool does not raise, the samples of the committed batches are at
    every moment the first ones collected, in order, and at the end all of them; no batch is empty or
    too large, and no two have one id. -/
theorem samples_spooled_once {libs : Libraries} {settings : AgentSettings} {textBytes : Payload → ℕ}
    {spool c : Connection} {t : List AgentEvent} {l : AgentLoop}
    (h : AgentRun libs settings textBytes spool t c l)
    (hid : agentIdPattern settings.agentId = true)
    (hhostname : textLength 1 255 settings.hostname = true) (hspool : AgentEvent.spoolRaised ∉ t)
    (huuid : (drawnIds t).Nodup) :
    (spooledBatches t).flatMap TelemetryBatch.samples <+: collectedSamples t ∧
    (l.control = .ended →
      (spooledBatches t).flatMap TelemetryBatch.samples = collectedSamples t) ∧
    (∀ batch ∈ spooledBatches t,
      1 ≤ batch.samples.length ∧ batch.samples.length ≤ settings.batchSize) ∧
    ((spooledBatches t).map TelemetryBatch.batchId).Nodup := by
  have haccounts := h.accounts hid hhostname hspool
  refine ⟨⟨_, haccounts.samples⟩, ?_, ?_, ?_⟩
  · intro hended
    have hnone : l.unspooled = [] := by simp [AgentLoop.unspooled, hended]
    rw [← haccounts.samples, hnone, List.append_nil]
  · exact fun batch hbatch => ⟨List.length_pos_iff.mpr batch.samples_ne_nil,
      haccounts.sizes batch hbatch⟩
  · exact ((List.sublist_append_left _ _).trans haccounts.ids).nodup huuid

/-- One sample, an empty spool, and the stop signal while the agent waits: the flush spools it. -/
theorem agentRun_flushed : ∃ t c l,
    AgentRun .canonical plainSettings plainBytes (.connect .empty) t c l ∧
    l.control = .ended ∧ AgentEvent.spoolRaised ∉ t ∧ drawnIds t = [calmBatch.batchId] ∧
    collectedSamples t = calmBatch.samples ∧
    c.durable.rows = [spoolRow plainBytes 100 calmBatch] := by
  have hconstruct : TelemetryBatch.construct calmBatch.batchId plainSettings.agentId
      plainSettings.hostname calmBatch.samples = some calmBatch := dif_pos calmBatch.valid
  have hsample := calmBatch.sample_valid (spooledSample (.finite 1)) List.mem_cons_self
  have hwaiting : AgentRun .canonical plainSettings plainBytes (.connect .empty) _ (.connect .empty)
      ⟨true, calmBatch.samples, .waiting⟩ :=
    ((((AgentRun.start.step .enter).step (.collect hsample)).step (.notFull (by decide))).step
      (@AgentStep.readNone _ _ _ _ _ _ .first (.finite 99) rfl)).step (.signal rfl)
  have hflushing : AgentRun .canonical plainSettings plainBytes (.connect .empty) _ (.connect .empty)
      ⟨true, calmBatch.samples, .calling (.flush calmBatch) (.enqueue plainBytes 100 calmBatch)⟩ :=
    ((hwaiting.step .wait).step .leave).step (.flush calmBatch.samples_ne_nil hconstruct)
  have hclosing := (((hflushing.step
    (@AgentStep.statement _ _ _ _ _ _ _ _ _ _ .first rfl rfl)).step
    (@AgentStep.statement _ _ _ _ _ _ _ _ _ _ .first rfl rfl)).step
    (@AgentStep.statement _ _ _ _ _ _ _ _ _ _ .first rfl rfl)).step .callReturns
  exact ⟨_, _, _, hclosing.step .close, rfl, by simp, rfl, rfl, rfl⟩

theorem samples_spooled_once_flushed : ∃ t c l,
    AgentRun .canonical plainSettings plainBytes (.connect .empty) t c l ∧ l.control = .ended ∧
    (spooledBatches t).flatMap TelemetryBatch.samples = calmBatch.samples := by
  obtain ⟨t, c, l, hrun, hended, hspool, hids, hcollected, -⟩ := agentRun_flushed
  have hspooled := samples_spooled_once hrun (by decide +kernel) (by decide) hspool
    (by rw [hids]; exact List.nodup_singleton _)
  exact ⟨t, c, l, hrun, hended, (hspooled.2.1 hended).trans hcollected⟩

end FleetPulse
