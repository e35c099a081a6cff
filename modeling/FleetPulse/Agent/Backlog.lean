import FleetPulse.Agent.SpoolFile

/-! What the loop of the agent makes of a backlog.

        a round:   + 1 batch, if `samples` is full        − 1 batch, if one was there

    With a `batch_size` of 2 or more there are rounds in which nothing comes in, and a backlog is gone
    after two rounds for each of its batches (`backlog_drains`). With a `batch_size` of 1 a batch comes
    in in every round: what has once gathered stays, even if from then on each delivery succeeds
    (`backlog_stays`). -/

namespace FleetPulse
open Values

/-- What is assumed of a step: the state before it, its event and where it leads. -/
abbrev StepCondition := Connection → AgentLoop → AgentEvent → AgentLoop → Prop

/-- Nothing raises, no signal comes, and a batch is due if there is one in the spool. -/
def Undisturbed : StepCondition := fun c l e l' =>
  l'.control ≠ .finishing ∧ (∀ pending error, l'.control ≠ .failed pending error) ∧
  e ≠ .signalled ∧ (l.control = .reading → l'.control = .waiting → c.working.rows = [])

/-- The ids of `uuid4()` are new, and there is room for each batch. -/
def Roomy (settings : AgentSettings) : StepCondition := fun c _ e _ =>
  (∀ batchId : UUID, e = .drawn batchId → batchId.str ∉ c.working.keys) ∧
  ∀ use dropped, e = .executed use (.evicting dropped) →
    SpoolTable.exceeds settings.limits c.working = false

def AgentControl.isHead : AgentControl → Bool
  | .looping => true
  | _ => false

/-- Whatever a call has changed is committed. -/
def AgentControl.isSettled : AgentControl → Bool
  | .looping | .collecting | .comparing | .building | .resetting | .reading | .sending _
  | .waiting | .calling (.enqueue _) (.inserting _) | .calling (.enqueue _) (.done _)
  | .calling (.markSent _) (.deleting _) | .calling (.markSent _) (.done _)
  | .calling (.markFailed _) (.done _) => true
  | _ => false

/-- How many steps of its round the loop has made. -/
def AgentControl.position : AgentControl → ℕ
  | .looping => 0
  | .collecting => 1
  | .comparing => 2
  | .building => 3
  | .calling (.enqueue _) (.inserting _) => 4
  | .calling (.enqueue _) (.evicting _) => 6
  | .calling (.enqueue _) (.committing _) => 7
  | .calling (.enqueue _) _ => 8
  | .resetting => 9
  | .reading => 10
  | .sending _ => 11
  | .calling (.markSent _) (.deleting _) => 12
  | .calling (.markSent _) (.committing _) => 13
  | .calling (.markSent _) _ => 14
  | _ => 15

section
variable (libs : Libraries) (settings : AgentSettings) (textBytes : Payload → ℕ)

/-- `k` steps with the condition, of which `n` lead to the head of the loop. -/
inductive Rounds (P : StepCondition) (c : Connection) (l : AgentLoop) :
    ℕ → ℕ → Connection → AgentLoop → Prop
  | none : Rounds P c l 0 0 c l
  | step {n k d m e d' m'} : Rounds P c l n k d m →
      AgentStep libs settings textBytes d m e d' m' → P d m e m' →
      Rounds P c l (n + m'.control.isHead.toNat) (k + 1) d' m'

end

/-- Two for each batch and one for each sample: as many rounds are left of `K`, or none is needed. -/
structure Draining (K n : ℕ) (c : Connection) (l : AgentLoop) : Prop where
  running : l.stop = false
  rows : match l.control with
    | .looping | .collecting =>
      c.working.rows.length = 0 ∨ 2 * c.working.rows.length + l.samples.length + n ≤ K
    | .comparing =>
      c.working.rows.length = 0 ∨ 2 * c.working.rows.length + l.samples.length + n ≤ K + 1
    | .building | .calling (.enqueue _) (.inserting _) =>
      c.working.rows.length = 0 ∨ 2 * c.working.rows.length + n + 1 ≤ K
    | .calling (.enqueue _) _ | .resetting =>
      c.working.rows.length ≤ 1 ∨ 2 * c.working.rows.length + n ≤ K + 1
    | .reading =>
      c.working.rows.length ≤ 1 ∨ 2 * c.working.rows.length + l.samples.length + n ≤ K + 1
    | .sending pending => pending.batch.batchId.str ∈ c.working.keys ∧
      (c.working.rows.length ≤ 1 ∨ 2 * c.working.rows.length + l.samples.length + n ≤ K + 1)
    | .calling (.markSent _) (.deleting batchId) => batchId ∈ c.working.keys ∧
      (c.working.rows.length ≤ 1 ∨ 2 * c.working.rows.length + l.samples.length + n ≤ K + 1)
    | .calling (.markSent _) _ | .waiting =>
      c.working.rows.length = 0 ∨ 2 * c.working.rows.length + l.samples.length + n + 1 ≤ K
    | _ => False

/-- At least `K` batches at the head of the loop, and one more between an enqueue and a deletion. -/
def Gathered (K : ℕ) (c : Connection) (l : AgentLoop) : Prop :=
  match l.control with
  | .comparing => K ≤ c.working.rows.length ∧ l.samples ≠ []
  | .calling (.enqueue _) (.inserting row) =>
    K ≤ c.working.rows.length ∧ row.batchId ∉ c.working.keys
  | .calling (.enqueue _) _ | .resetting | .reading | .sending _
  | .calling (.markSent _) (.deleting _) => K + 1 ≤ c.working.rows.length
  | .finishing | .calling (.flush _) _ | .closing | .ended => True
  | _ => K ≤ c.working.rows.length

section
variable {libs : Libraries} {settings : AgentSettings} {textBytes : Payload → ℕ} {P : StepCondition}
  {spool c c' : Connection} {t : List AgentEvent} {l l' : AgentLoop} {e : AgentEvent} {K n k : ℕ}

theorem AgentRun.rounds (h : AgentRun libs settings textBytes spool t c l)
    (hrounds : Rounds libs settings textBytes P c l n k c' l') :
    ∃ t', AgentRun libs settings textBytes spool t' c' l' := by
  induction hrounds with
  | none => exact ⟨t, h⟩
  | step _ hstep _ ih =>
    obtain ⟨t', ih⟩ := ih
    exact ⟨_, ih.step hstep⟩

/-! ### Rows -/

theorem length_insertOrIgnore_le (t : SpoolTable) (row : SpoolRow) :
    (t.insertOrIgnore row).1.rows.length ≤ t.rows.length + 1 := by
  rcases t.insertOrIgnore_cases row with ⟨-, hrows, -⟩ | ⟨-, hrows, -⟩ <;> simp [hrows]

theorem length_deleteOldest {limits : SpoolLimits} (oldest : Oldest) {t : SpoolTable}
    (h : SpoolTable.exceeds limits t = true) :
    (deleteOldest oldest t).rows.length + 1 = t.rows.length := by
  have hne : t.rows ≠ [] := by
    intro hnil
    simp [SpoolTable.exceeds, SpoolTable.count, SpoolTable.totalBytes, hnil] at h
  obtain ⟨before, row, after, hrows, -, hdelete⟩ := deleteOldest_split oldest hne
  rw [hrows, hdelete]
  simp only [List.length_append, List.length_cons]
  omega

theorem length_deleteWhere_lt {t : SpoolTable} {batchId : String} (h : batchId ∈ t.keys) :
    (t.deleteWhere (fun r => r.batchId = batchId)).rows.length < t.rows.length := by
  obtain ⟨row, hrow, hid⟩ := Table.mem_keys.mp h
  rw [Table.rows_deleteWhere]
  exact List.length_filter_lt_length_iff_exists.mpr ⟨row, hrow, by simp [hid]⟩

/-- The id is the key. -/
theorem length_deleteWhere_ge (t : SpoolTable) (batchId : String) :
    t.rows.length ≤ (t.deleteWhere (fun r => r.batchId = batchId)).rows.length + 1 := by
  have hcount : (t.rows.map SpoolRow.batchId).count batchId ≤ 1 :=
    List.nodup_iff_count_le_one.mp t.nodup batchId
  rw [List.count, List.countP_map] at hcount
  have hlength := List.length_eq_countP_add_countP (fun r : SpoolRow => r.batchId == batchId)
    (l := t.rows)
  have hrest : (t.deleteWhere (fun r => r.batchId = batchId)).rows.length =
      t.rows.countP (fun r => decide ¬(r.batchId == batchId) = true) := by
    rw [Table.rows_deleteWhere, ← List.countP_eq_length_filter]
    exact List.countP_congr (by simp)
  have hsame : (fun x => x == batchId) ∘ SpoolRow.batchId =
      fun r : SpoolRow => r.batchId == batchId := rfl
  rw [hsame] at hcount
  omega

theorem length_updateFailed (batchId error : String) (nextAttemptAt : PyFloat) (t : SpoolTable) :
    (updateFailed batchId error nextAttemptAt t).rows.length = t.rows.length := by
  rw [rows_updateFailed, List.length_map]

/-- The id of a batch that is read is that of a row. -/
theorem mem_keys_of_nextReady {oldest : Oldest} {now : PyFloat} {pending : PendingBatch}
    {t : SpoolTable} (hwritten : ∀ row ∈ t.rows, row.Written textBytes)
    (h : nextReady libs oldest now t = .ok (some pending)) : pending.batch.batchId.str ∈ t.keys := by
  unfold nextReady at h
  split at h
  · cases h
  · next row hpick =>
    have hrow : row ∈ t.rows := List.mem_of_mem_filter (oldest.pick_mem _ _ hpick)
    obtain ⟨⟨batch, hid, hpayload⟩, -⟩ := hwritten row hrow
    rw [hpayload, TelemetryBatch.validate_modelDumpJson] at h
    cases hfinite : batch.finite with
    | true =>
      simp only [hfinite, if_true] at h
      cases h
      exact hid ▸ Table.key_mem_keys hrow
    | false =>
      simp only [hfinite] at h
      cases h

/-! ### What is committed -/

/-- A statement is followed by an eviction or the commit, or was the commit. -/
theorem SpoolCall.step_settled {limits : SpoolLimits} {oldest : Oldest} {call call' : SpoolCall}
    (hopen : call.isOpen = true) (h : call.step limits oldest c = .ok (call', c')) :
    (∃ dropped, call' = .done dropped ∧ c'.working = c'.durable) ∨
    (∃ dropped, call' = .evicting dropped) ∨ ∃ dropped, call' = .committing dropped := by
  cases call with
  | inserting =>
    cases h
    exact .inr (.inl ⟨0, rfl⟩)
  | evicting =>
    rw [SpoolCall.step] at h
    split at h
    · cases h
      exact .inr (.inl ⟨_, rfl⟩)
    · cases h
      exact .inr (.inr ⟨_, rfl⟩)
  | deleting =>
    cases h
    exact .inr (.inr ⟨0, rfl⟩)
  | updating =>
    rw [SpoolCall.step] at h
    split at h
    · cases h
    · cases h
      exact .inr (.inr ⟨0, rfl⟩)
  | committing dropped =>
    cases h
    exact .inl ⟨dropped, rfl, rfl⟩
  | done => cases hopen

theorem settled_step (h : l.control.isSettled = true → c.working = c.durable)
    (hstep : AgentStep libs settings textBytes c l e c' l') :
    l'.control.isSettled = true → c'.working = c'.durable := by
  cases hstep with
  | signal => exact h
  | @statement _ _ _ use _ _ _ hopen hcall =>
    intro hsettled
    rcases SpoolCall.step_settled hopen hcall with ⟨_, rfl, hsame⟩ | ⟨_, rfl⟩ | ⟨_, rfl⟩
    · exact hsame
    · cases use <;> simp [AgentControl.isSettled] at hsettled
    · cases use <;> simp [AgentControl.isSettled] at hsettled
  | @statementRaises _ _ use =>
    cases use <;> simp [SpoolUse.handler, AgentControl.isSettled]
  | @callReturns _ _ use =>
    cases use with
    | enqueue | markSent | markFailed => exact fun _ => h rfl
    | flush => simp [SpoolUse.next, AgentControl.isSettled]
  | enter | collect | full | notFull | build | reset | readNone | read | respond | wait =>
    exact fun _ => h rfl
  | leave | collectRaises | buildRaises | readRaises | queryRaises | sendRaises | sendCancelled
  | reschedule | delayRaises | waitCancelled | nothingToFlush | flush | flushRaises | close =>
    simp [AgentControl.isSettled, SpoolCall.markFailed]

/-- At the head of the loop, and wherever else no call is under way, the file is the table. -/
theorem AgentRun.settled {file : SpoolTable}
    (h : AgentRun libs settings textBytes (.connect file) t c l) :
    l.control.isSettled = true → c.working = c.durable := by
  induction h with
  | start => exact fun _ => rfl
  | step _ hstep ih => exact settled_step ih hstep

/-! ### A backlog that drains -/

namespace Draining

/-- The statements of an enqueue put in one batch at most. -/
theorem enqueue {oldest : Oldest} {samples : List TelemetrySample} {batch : TelemetryBatch}
    {call call' : SpoolCall} (h : Draining K n c ⟨false, samples, .calling (.enqueue batch) call⟩)
    (hallowed : (SpoolUse.enqueue batch).Allows textBytes call) (hopen : call.isOpen = true)
    (hcall : call.step settings.limits oldest c = .ok (call', c')) :
    Draining K n c' ⟨false, samples, .calling (.enqueue batch) call'⟩ := by
  have hrows := h.rows
  cases call with
  | inserting row =>
    cases hcall
    have hlength := length_insertOrIgnore_le c.working row
    refine ⟨rfl, ?_⟩
    simp only at hrows ⊢
    omega
  | evicting dropped =>
    rw [SpoolCall.step] at hcall
    split at hcall
    · next hexceeds =>
      cases hcall
      have hlength := length_deleteOldest oldest hexceeds
      refine ⟨rfl, ?_⟩
      simp only at hrows ⊢
      omega
    · cases hcall
      exact ⟨rfl, hrows⟩
  | committing dropped =>
    cases hcall
    exact ⟨rfl, hrows⟩
  | deleting | updating => exact absurd hallowed id
  | done => cases hopen

/-- Those of a delivery take one out. -/
theorem markSent {oldest : Oldest} {samples : List TelemetrySample} {pending : PendingBatch}
    {call call' : SpoolCall} (h : Draining K n c ⟨false, samples, .calling (.markSent pending) call⟩)
    (hallowed : (SpoolUse.markSent pending).Allows textBytes call) (hopen : call.isOpen = true)
    (hcall : call.step settings.limits oldest c = .ok (call', c')) :
    Draining K n c' ⟨false, samples, .calling (.markSent pending) call'⟩ := by
  have hrows := h.rows
  cases call with
  | deleting batchId =>
    cases hcall
    obtain ⟨hmem, hrows⟩ := hrows
    have hlength := length_deleteWhere_lt hmem
    refine ⟨rfl, ?_⟩
    simp only at hrows ⊢
    omega
  | committing dropped =>
    cases hcall
    exact ⟨rfl, hrows⟩
  | inserting | evicting | updating => exact absurd hallowed id
  | done => cases hopen

theorem step (h : Draining K n c l) (hsize : 2 ≤ settings.batchSize)
    (hbounded : Bounded settings.limits textBytes c l.control)
    (hstep : AgentStep libs settings textBytes c l e c' l') (hquiet : Undisturbed c l e l') :
    Draining K (n + l'.control.isHead.toNat) c' l' := by
  obtain ⟨hloop, hfailed, hsignal, hdue⟩ := hquiet
  have hrunning := h.running
  have hrows := h.rows
  have hallowed := hbounded.allowed
  cases hstep with
  | signal => exact absurd rfl hsignal
  | enter => exact ⟨rfl, hrows⟩
  | leave => cases hrunning
  | collect =>
    refine ⟨hrunning, ?_⟩
    simp only [List.length_append, List.length_singleton, AgentControl.isHead, Bool.toNat_false,
      Nat.add_zero] at hrows ⊢
    omega
  | full hfull =>
    refine ⟨hrunning, ?_⟩
    simp only [AgentControl.isHead, Bool.toNat_false, Nat.add_zero] at hrows ⊢
    omega
  | notFull =>
    refine ⟨hrunning, ?_⟩
    simp only [AgentControl.isHead, Bool.toNat_false, Nat.add_zero] at hrows ⊢
    omega
  | build => exact ⟨hrunning, hrows⟩
  | @statement _ stop _ use _ _ _ hopen hcall =>
    obtain rfl : stop = false := hrunning
    cases use with
    | enqueue batch => exact h.enqueue hallowed hopen hcall
    | markSent pending => exact h.markSent hallowed hopen hcall
    | markFailed => exact absurd hrows id
    | flush => exact absurd hrows id
  | @statementRaises _ _ use =>
    cases use with
    | enqueue | markFailed => exact absurd rfl hloop
    | markSent => exact absurd rfl (hfailed _ _)
    | flush => exact absurd hrows id
  | @callReturns _ _ use =>
    cases use with
    | enqueue | markSent => exact ⟨hrunning, hrows⟩
    | markFailed | flush => exact absurd hrows id
  | reset =>
    refine ⟨hrunning, ?_⟩
    simp only [AgentControl.isHead, Bool.toNat_false, Nat.add_zero, List.length_nil] at hrows ⊢
    omega
  | readNone =>
    have hempty := hdue rfl rfl
    exact ⟨hrunning, .inl (by simp [hempty])⟩
  | read hread =>
    exact ⟨hrunning, mem_keys_of_nextReady (fun row hrow => hbounded.written row (.inr hrow)) hread,
      hrows⟩
  | respond => exact ⟨hrunning, hrows⟩
  | wait =>
    refine ⟨hrunning, ?_⟩
    simp only [AgentControl.isHead, Bool.toNat_true] at hrows ⊢
    omega
  | collectRaises | buildRaises | readRaises | queryRaises | sendCancelled | delayRaises
  | waitCancelled => exact absurd rfl hloop
  | sendRaises => exact absurd rfl (hfailed _ _)
  | reschedule | nothingToFlush | flush | flushRaises | close => exact absurd hrows id

/-- A round has 16 steps, and one more for each batch that is evicted. -/
theorem position_step (h : Draining K n c l) (hbounded : Bounded settings.limits textBytes c l.control)
    (hstep : AgentStep libs settings textBytes c l e c' l') (hquiet : Undisturbed c l e l') :
    c'.working.rows.length + l.control.position + 1 ≤
      c.working.rows.length + 16 * l'.control.isHead.toNat + l'.control.position := by
  obtain ⟨hloop, hfailed, hsignal, -⟩ := hquiet
  have hrunning := h.running
  have hrows := h.rows
  have hallowed := hbounded.allowed
  cases hstep with
  | signal => exact absurd rfl hsignal
  | leave => cases hrunning
  | @statement _ _ _ use call _ oldest hopen hcall =>
    cases use with
    | enqueue batch =>
      cases call with
      | inserting row =>
        cases hcall
        have hlength := length_insertOrIgnore_le c.working row
        simp only [AgentControl.position, AgentControl.isHead, Bool.toNat_false]
        omega
      | evicting =>
        rw [SpoolCall.step] at hcall
        split at hcall
        · next hexceeds =>
          cases hcall
          have hlength := length_deleteOldest oldest hexceeds
          simp only [AgentControl.position, AgentControl.isHead, Bool.toNat_false]
          omega
        · cases hcall
          simp [AgentControl.position, AgentControl.isHead]
      | committing =>
        cases hcall
        simp [AgentControl.position, AgentControl.isHead]
      | deleting | updating => exact absurd hallowed id
      | done => cases hopen
    | markSent pending =>
      cases call with
      | deleting batchId =>
        cases hcall
        have hlength := length_deleteWhere_lt hrows.1
        simp only [AgentControl.position, AgentControl.isHead, Bool.toNat_false]
        omega
      | committing =>
        cases hcall
        simp [AgentControl.position, AgentControl.isHead]
      | inserting | evicting | updating => exact absurd hallowed id
      | done => cases hopen
    | markFailed | flush => exact absurd hrows id
  | @statementRaises _ _ use =>
    cases use with
    | enqueue | markFailed => exact absurd rfl hloop
    | markSent => exact absurd rfl (hfailed _ _)
    | flush => exact absurd hrows id
  | @callReturns _ _ use =>
    cases use with
    | enqueue | markSent => simp [AgentControl.position, AgentControl.isHead, SpoolUse.next]
    | markFailed | flush => exact absurd hrows id
  | enter | collect | full | notFull | build | reset | readNone | read | respond | wait =>
    simp [AgentControl.position, AgentControl.isHead, SpoolCall.enqueue, SpoolCall.markSent]
  | collectRaises | buildRaises | readRaises | queryRaises | sendCancelled | delayRaises
  | waitCancelled => exact absurd rfl hloop
  | sendRaises => exact absurd rfl (hfailed _ _)
  | reschedule | nothingToFlush | flush | flushRaises | close => exact absurd hrows id

end Draining

/-- All rounds of a run. -/
theorem Rounds.draining (h : Rounds libs settings textBytes Undisturbed c l n k c' l')
    (hsize : 2 ≤ settings.batchSize) (hdraining : Draining K 0 c l)
    (hbounded : Bounded settings.limits textBytes c l.control) :
    Draining K n c' l' ∧ Bounded settings.limits textBytes c' l'.control ∧
      c'.working.rows.length + k ≤ c.working.rows.length + 16 * n + l'.control.position := by
  induction h with
  | none => exact ⟨hdraining, hbounded, by omega⟩
  | step _ hstep hquiet ih =>
    obtain ⟨hdraining, hbounded, hsteps⟩ := ih
    have hposition := hdraining.position_step hbounded hstep hquiet
    exact ⟨hdraining.step hsize hbounded hstep hquiet, hbounded.step hstep, by omega⟩

theorem position_le (control : AgentControl) : control.position ≤ 15 := by
  unfold AgentControl.position
  split <;> omega

/-- DRAINS: from any head of the loop on, as long as nothing disturbs the agent, a round has at most
    16 steps besides the evictions, and after two rounds for each batch in the file and one for each
    sample the file is empty at every head of the loop. -/
theorem backlog_drains {file : SpoolTable} (hfile : SpoolFile libs settings textBytes file)
    (hrun : AgentRun libs settings textBytes (.connect file) t c l) (hhead : l.control = .looping)
    (hstop : l.stop = false) (hsize : 2 ≤ settings.batchSize)
    (hrounds : Rounds libs settings textBytes Undisturbed c l n k c' l') :
    k ≤ SpoolTable.count c.durable + 16 * n + 15 ∧
    (l'.control = .looping → 2 * SpoolTable.count c.durable + l.samples.length ≤ n →
      c'.durable.rows = []) := by
  have hsame := hrun.settled (by rw [hhead]; rfl)
  have hbounded := hrun.bounded hfile.bounded.1 hfile.bounded.2
  have hstart : Draining (2 * c.working.rows.length + l.samples.length) 0 c l := by
    refine ⟨hstop, ?_⟩
    rw [hhead]
    exact .inr le_rfl
  obtain ⟨hdraining, -, hsteps⟩ := hrounds.draining hsize hstart hbounded
  rw [SpoolTable.count, ← hsame]
  refine ⟨by have := position_le l'.control; omega, fun hhead' hn => ?_⟩
  obtain ⟨t', hrun'⟩ := hrun.rounds hrounds
  have hrows := hdraining.rows
  rw [hhead'] at hrows
  rw [← hrun'.settled (by rw [hhead']; rfl)]
  refine List.length_eq_zero_iff.mp ?_
  simp only at hrows
  omega

/-! ### A backlog that stays -/

namespace Gathered

/-- The statements of a call: an enqueue puts its batch in, a delivery takes out one at most. -/
theorem statement {oldest : Oldest} {stop : Bool} {samples : List TelemetrySample} {use : SpoolUse}
    {call call' : SpoolCall} (h : Gathered K c ⟨stop, samples, .calling use call⟩)
    (hallowed : use.Allows textBytes call) (hopen : call.isOpen = true)
    (hcall : call.step settings.limits oldest c = .ok (call', c'))
    (hroom : ∀ dropped, call = .evicting dropped →
      SpoolTable.exceeds settings.limits c.working = false) :
    Gathered K c' ⟨stop, samples, .calling use call'⟩ := by
  cases use with
  | flush => trivial
  | enqueue batch =>
    cases call with
    | inserting row =>
      cases hcall
      obtain ⟨hrows, hnew⟩ := h
      simp only [Gathered, Table.insertOrIgnore_of_not_mem hnew]
      change K + 1 ≤ (c.working.rows ++ [row]).length
      simpa using hrows
    | evicting dropped =>
      rw [SpoolCall.step, hroom dropped rfl] at hcall
      cases hcall
      exact h
    | committing =>
      cases hcall
      exact h
    | deleting | updating => exact absurd hallowed id
    | done => cases hopen
  | markSent pending =>
    cases call with
    | deleting batchId =>
      cases hcall
      have hlength := length_deleteWhere_ge c.working batchId
      simp only [Gathered] at h ⊢
      omega
    | committing =>
      cases hcall
      exact h
    | inserting | evicting | updating => exact absurd hallowed id
    | done => cases hopen
  | markFailed pending =>
    cases call with
    | updating batchId error nextAttemptAt =>
      rw [SpoolCall.step] at hcall
      split at hcall
      · cases hcall
      · cases hcall
        simp only [Gathered, length_updateFailed]
        exact h
    | committing =>
      cases hcall
      exact h
    | inserting | evicting | deleting => exact absurd hallowed id
    | done => cases hopen

/-- One step, with a `batch_size` of 1; deliveries may fail as they like. -/
theorem step (h : Gathered K c l) (hsize : settings.batchSize = 1)
    (hbounded : Bounded settings.limits textBytes c l.control)
    (hstep : AgentStep libs settings textBytes c l e c' l') (hroomy : Roomy settings c l e l') :
    Gathered K c' l' := by
  have hallowed := hbounded.allowed
  cases hstep with
  | signal => exact h
  | collect => exact ⟨h, by simp⟩
  | full => exact h.1
  | notFull hroom =>
    -- the list has just got a sample
    rw [hsize, Nat.lt_one_iff, List.length_eq_zero_iff] at hroom
    exact absurd hroom h.2
  | build hbatch =>
    have hid := (batch_of_construct hbatch).1
    exact ⟨h, by simpa [spoolRow, hid] using hroomy.1 _ rfl⟩
  | statement hopen hcall =>
    exact h.statement hallowed hopen hcall (fun dropped hcall => hroomy.2 _ dropped (by rw [hcall]))
  | @statementRaises _ _ use call _ hopen =>
    cases use with
    | enqueue | markFailed | flush => trivial
    | markSent =>
      cases call with
      | deleting => exact Nat.le_of_succ_le h
      | committing => exact h
      | inserting | evicting | updating => exact absurd hallowed id
      | done => cases hopen
  | @callReturns _ _ use =>
    cases use with
    | enqueue | markSent | markFailed => exact h
    | flush => trivial
  | enter | reset | read | respond | reschedule | wait => exact h
  | readNone | sendRaises => exact Nat.le_of_succ_le h
  | leave | collectRaises | buildRaises | readRaises | queryRaises | sendCancelled | delayRaises
  | waitCancelled | nothingToFlush | flush | flushRaises | close => trivial

end Gathered

/-- STAYS: with a `batch_size` of 1 the file never has fewer batches at a later head of the loop than
    at an earlier one, unless a batch was evicted. -/
theorem backlog_stays {file : SpoolTable} (hfile : SpoolFile libs settings textBytes file)
    (hrun : AgentRun libs settings textBytes (.connect file) t c l) (hhead : l.control = .looping)
    (hsize : settings.batchSize = 1)
    (hrounds : Rounds libs settings textBytes (Roomy settings) c l n k c' l')
    (hhead' : l'.control = .looping) :
    SpoolTable.count c.durable ≤ SpoolTable.count c'.durable := by
  have hstart : Gathered c.working.rows.length c l := by
    simp [Gathered, hhead]
  have hall : Gathered c.working.rows.length c' l' ∧ Bounded settings.limits textBytes c' l'.control := by
    clear hhead'
    induction hrounds with
    | none => exact ⟨hstart, hrun.bounded hfile.bounded.1 hfile.bounded.2⟩
    | step _ hstep hroomy ih => exact ⟨ih.1.step hsize ih.2 hstep hroomy, ih.2.step hstep⟩
  obtain ⟨t', hrun'⟩ := hrun.rounds hrounds
  have hrows := hall.1
  simp only [Gathered, hhead'] at hrows
  rw [SpoolTable.count, SpoolTable.count, ← hrun.settled (by rw [hhead]; rfl),
    ← hrun'.settled (by rw [hhead']; rfl)]
  exact hrows

end

def calmResponse : IngestionResponse := ⟨calmBatch.batchId, .accepted, calmBatch.batchId.str⟩

theorem nextReady_calm : nextReady .canonical .first (.finite 101) calmSpool.working =
    .ok (some ⟨calmBatch, 0⟩) := by
  have hpick : Oldest.first.pick (calmSpool.working.rows.filter
      (fun r => r.nextAttemptAt.le (.finite 101))) = some (spoolRow plainBytes 100 calmBatch) := rfl
  rw [nextReady, hpick]
  simp only [spoolRow, TelemetryBatch.validate_modelDumpJson]
  rfl

/-- The batch of a process that has flushed is in the file, and the next process delivers it. -/
theorem backlog_drains_calm : ∃ c' l',
    Rounds .canonical plainSettings plainBytes Undisturbed calmSpool ⟨false, [], .looping⟩ 2 14 c' l' ∧
    l'.control = .looping ∧ c'.durable.rows = [] := by
  obtain ⟨t, c, l, hrun, -, -, -, -, hrows⟩ := agentRun_flushed
  have hfile : SpoolFile .canonical plainSettings plainBytes calmSpool.durable := by
    have hsame : c.durable = calmSpool.durable := Table.ext hrows
    exact hsame ▸ .ended .empty hrun
  have hsample := calmBatch.sample_valid (spooledSample (.finite 1)) List.mem_cons_self
  have hfirst : Rounds .canonical plainSettings plainBytes Undisturbed calmSpool
      ⟨false, [], .looping⟩ 0 4 calmSpool ⟨false, calmBatch.samples, .sending ⟨calmBatch, 0⟩⟩ :=
    (((Rounds.none.step .enter (by simp [Undisturbed])).step (.collect hsample)
      (by simp [Undisturbed])).step (.notFull (by decide)) (by simp [Undisturbed])).step
      (.read nextReady_calm) (by simp [Undisturbed])
  have hsent := ((((hfirst.step
    (@AgentStep.respond _ _ _ _ _ _ _ calmResponse) (by simp [Undisturbed])).step
    (@AgentStep.statement _ _ _ _ _ _ _ _ _ _ .first rfl rfl) (by simp [Undisturbed])).step
    (@AgentStep.statement _ _ _ _ _ _ _ _ _ _ .first rfl rfl) (by simp [Undisturbed])).step
    .callReturns (by simp [Undisturbed, SpoolUse.next])).step .wait (by simp [Undisturbed])
  have hsecond := ((((hsent.step .enter (by simp [Undisturbed])).step (.collect hsample)
    (by simp [Undisturbed])).step (.notFull (by decide)) (by simp [Undisturbed])).step
    (@AgentStep.readNone _ _ _ _ _ _ .first (.finite 102) rfl)
    ⟨by simp, by simp, by simp, fun _ _ => rfl⟩).step .wait (by simp [Undisturbed])
  exact ⟨_, _, hsecond, rfl, (backlog_drains hfile .start rfl rfl (by decide) hsecond).2 rfl le_rfl⟩

/-- The defaults, but for a batch of one sample. -/
def singleSettings : AgentSettings :=
  { plainSettings with batchSize := 1, batchSize_pos := Nat.one_pos, batchSize_le := by decide }

/-- The API answers from the first round on, and there are as many batches as before. -/
theorem backlog_stays_single : ∃ c' l',
    Rounds .canonical singleSettings plainBytes (Roomy singleSettings) calmSpool ⟨false, [], .looping⟩
      1 15 c' l' ∧ SpoolTable.count calmSpool.durable ≤ SpoolTable.count c'.durable ∧
    c'.durable.keys = [flushedBatch.batchId.str] := by
  have hconstruct : TelemetryBatch.construct calmBatch.batchId singleSettings.agentId
      singleSettings.hostname calmBatch.samples = some calmBatch := dif_pos calmBatch.valid
  have hnext : TelemetryBatch.construct flushedBatch.batchId singleSettings.agentId
      singleSettings.hostname calmBatch.samples = some flushedBatch := dif_pos flushedBatch.valid
  have hsample := calmBatch.sample_valid (spooledSample (.finite 1)) List.mem_cons_self
  have hspooled : AgentRun .canonical singleSettings plainBytes (.connect .empty) _ calmSpool
      ⟨false, calmBatch.samples, .calling (.enqueue calmBatch) (.done 0)⟩ :=
    ((((((AgentRun.start.step .enter).step (.collect hsample)).step (.full (by decide))).step
      (@AgentStep.build _ _ _ _ _ _ _ _ 100 hconstruct)).step
      (@AgentStep.statement _ _ _ _ _ _ _ _ _ _ .first rfl rfl)).step
      (@AgentStep.statement _ _ _ _ _ _ _ _ _ _ .first rfl rfl)).step
      (@AgentStep.statement _ _ _ _ _ _ _ _ _ _ .first rfl rfl)
  have hfile : SpoolFile .canonical singleSettings plainBytes calmSpool.durable :=
    .ended .empty hspooled
  have hread : nextReady .canonical .first (.finite 102)
      (calmSpool.working.insertOrIgnore (spoolRow plainBytes 101 flushedBatch)).1 =
        .ok (some ⟨calmBatch, 0⟩) := by
    have hpick : Oldest.first.pick ((calmSpool.working.insertOrIgnore
        (spoolRow plainBytes 101 flushedBatch)).1.rows.filter (fun r => r.nextAttemptAt.le (.finite 102))) =
          some (spoolRow plainBytes 100 calmBatch) := rfl
    rw [nextReady, hpick]
    simp only [spoolRow, TelemetryBatch.validate_modelDumpJson]
    rfl
  have hcalm : ∀ {c l e l'}, (∀ batchId, e ≠ .drawn batchId) →
      (∀ use dropped, e ≠ .executed use (.evicting dropped)) → Roomy singleSettings c l e l' :=
    fun hdrawn hevicting => ⟨fun batchId he => absurd he (hdrawn batchId),
      fun use dropped he => absurd he (hevicting use dropped)⟩
  have hinserted : Rounds .canonical singleSettings plainBytes (Roomy singleSettings) calmSpool
      ⟨false, [], .looping⟩ 0 5 _ _ :=
    ((((Rounds.none.step .enter (hcalm (by simp) (by simp))).step (.collect hsample)
      (hcalm (by simp) (by simp))).step (.full (by decide)) (hcalm (by simp) (by simp))).step
      (@AgentStep.build _ _ _ _ _ _ _ _ 101 hnext)
      ⟨by rintro _ ⟨⟩; decide +kernel, by simp⟩).step
      (@AgentStep.statement _ _ _ _ _ _ _ _ _ _ .first rfl rfl)
      (hcalm (by simp) (by simp [SpoolCall.enqueue]))
  have hspooled := ((((hinserted.step (@AgentStep.statement _ _ _ _ _ _ _ _ _ _ .first rfl rfl)
    ⟨by simp, by rintro _ _ ⟨⟩; decide +kernel⟩).step
    (@AgentStep.statement _ _ _ _ _ _ _ _ _ _ .first rfl rfl) (hcalm (by simp) (by simp))).step
    .callReturns (hcalm (by simp) (by simp))).step .reset (hcalm (by simp) (by simp))).step
    (.read hread) (hcalm (by simp) (by simp))
  have hsent := ((((hspooled.step (@AgentStep.respond _ _ _ _ _ _ _ calmResponse)
    (hcalm (by simp) (by simp))).step
    (@AgentStep.statement _ _ _ _ _ _ _ _ _ _ .first rfl rfl)
    (hcalm (by simp) (by simp [SpoolCall.markSent]))).step
    (@AgentStep.statement _ _ _ _ _ _ _ _ _ _ .first rfl rfl) (hcalm (by simp) (by simp))).step
    .callReturns (hcalm (by simp) (by simp))).step .wait (hcalm (by simp) (by simp))
  exact ⟨_, _, hsent, backlog_stays hfile .start rfl rfl hsent rfl, rfl⟩

end FleetPulse
