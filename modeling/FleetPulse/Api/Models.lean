import FleetPulse.Lib.Table
import FleetPulse.Telemetry

/-! The PostgreSQL tables, with the columns that some modelled function writes or reads. Server-side
    time stamps that nothing reads back, and the random primary key of an incident, are left out.

    A table is keyed by the constraint the code relies on: the primary key, or for incidents
    `uq_incident_open_deduplication`. What a column refuses (a text that is too long or holds a NUL
    character, a JSON document with a NUL or a number that is not finite, an integer out of range)
    makes the statement raise a `DBAPIError`. -/

namespace FleetPulse
open Values

/-- The exceptions that reach the code, by class. -/
inductive PyError where
  | validation
  | key
  | value
  | jsonDecode
  | recursion
  | noResultFound
  | dbapi
  | integrity
  | overflow
  deriving DecidableEq

/-- `type(error).__name__`. -/
def PyError.typeName : PyError → String
  | .validation => "ValidationError"
  | .key => "KeyError"
  | .value => "ValueError"
  | .jsonDecode => "JSONDecodeError"
  | .recursion => "RecursionError"
  | .noResultFound => "NoResultFound"
  | .dbapi => "DBAPIError"
  | .integrity => "IntegrityError"
  | .overflow => "OverflowError"

/-! ### What columns refuse -/

/-- PostgreSQL stores no NUL character. -/
def storableText (s : String) : Bool := s.toList.all (fun c => c ≠ Char.ofNat 0)

/-- `String(n)`. -/
def fitsVarchar (n : ℕ) (s : String) : Bool := s.length ≤ n && storableText s

/-- `Integer`. -/
def fitsInteger (n : ℕ) : Bool := n < 2 ^ 31

mutual
/-- `JSONB`. -/
def storable : Payload → Bool
  | .null => true
  | .bool _ => true
  | .num (.int _) => true
  | .num (.float x) => x.isFinite
  | .str s => storableText s
  | .arr xs => storableItems xs
  | .obj kvs => storableMembers kvs
def storableItems : List Payload → Bool
  | [] => true
  | x :: xs => storable x && storableItems xs
def storableMembers : List (String × Payload) → Bool
  | [] => true
  | (k, x) :: kvs => storableText k && storable x && storableMembers kvs
end

/-- `JSONB`, for a mapping from strings to strings. -/
def storableMapping (kvs : List (String × String)) : Bool :=
  kvs.all (fun kv => storableText kv.1 && storableText kv.2)

/-- A computation that goes on after `x` succeeds only if `x` does. -/
theorem bind_eq_ok {ε α β : Type} {x : Except ε α} {f : α → Except ε β} {b : β} :
    (x >>= f) = .ok b ↔ ∃ a, x = .ok a ∧ f a = .ok b := by
  cases x with
  | error e => exact ⟨fun h => (nomatch h), fun ⟨_, h, _⟩ => (nomatch h)⟩
  | ok a => exact ⟨fun h => ⟨a, rfl, h⟩, fun ⟨_, h, hf⟩ => by cases h; exact hf⟩

/-- A statement that the database refuses raises. -/
def execute (accepts : Bool) : Except PyError Unit := if accepts then .ok () else .error .dbapi

@[simp] theorem execute_eq_ok {accepts : Bool} {u : Unit} :
    execute accepts = .ok u ↔ accepts = true := by
  cases accepts <;> simp [execute]

theorem storableItems_map {α : Type} (dump : α → Payload) : ∀ {xs : List α},
    storableItems (xs.map dump) = true → ∀ x ∈ xs, storable (dump x) = true
  | [], _, _, hx => by simp at hx
  | y :: ys, h, x, hx => by
      rw [List.map_cons, storableItems, Bool.and_eq_true] at h
      rcases List.mem_cons.mp hx with rfl | hx
      · exact h.1
      · exact storableItems_map dump h.2 x hx

theorem finite_of_storable_process {p : ProcessTelemetry} (h : storable p.dump = true) :
    p.finite = true := by
  simp only [ProcessTelemetry.dump, storable, storableMembers, floatNum, Bool.and_eq_true] at h
  simp only [ProcessTelemetry.finite, Bool.and_eq_true]
  exact ⟨h.2.2.1.2, h.2.2.2.1.2⟩

theorem finite_of_storable_disk {d : DiskTelemetry} (h : storable d.dump = true) :
    d.finite = true := by
  simp only [DiskTelemetry.dump, storable, storableMembers, floatNum, Bool.and_eq_true] at h
  exact h.2.2.2.2.1.2

theorem finite_of_storable_memory {m : MemoryTelemetry} (h : storable m.dump = true) :
    m.finite = true := by
  simp only [MemoryTelemetry.dump, storable, storableMembers, floatNum, Bool.and_eq_true] at h
  exact h.2.2.2.1.2

theorem finite_of_storable_sample {s : TelemetrySample} (h : storable s.dump = true) :
    s.finite = true := by
  simp only [TelemetrySample.dump, storable, storableMembers, floatNum, Bool.and_eq_true] at h
  obtain ⟨-, ⟨-, hcpu⟩, ⟨-, h1⟩, ⟨-, h5⟩, ⟨-, h15⟩, ⟨-, hmem⟩, ⟨-, hdisks⟩, -, -, ⟨-, hprocs⟩, -⟩ := h
  simp only [TelemetrySample.finite, Bool.and_eq_true, List.all_eq_true]
  exact ⟨⟨⟨⟨⟨⟨hcpu, h1⟩, h5⟩, h15⟩, finite_of_storable_memory hmem⟩,
    fun d hd => finite_of_storable_disk (storableItems_map _ hdisks d hd)⟩,
    fun p hp => finite_of_storable_process (storableItems_map _ hprocs p hp)⟩

/-- A batch whose dump the payload column accepts has finite numbers only. -/
theorem finite_of_storable_batch {b : TelemetryBatch} (h : storable b.dump = true) :
    b.finite = true := by
  simp only [TelemetryBatch.dump, storable, storableMembers, Bool.and_eq_true] at h
  obtain ⟨-, -, -, -, ⟨-, hsamples⟩, -⟩ := h
  simp only [TelemetryBatch.finite, List.all_eq_true]
  exact fun s hs => finite_of_storable_sample (storableItems_map _ hsamples s hs)

/-! ### Rows -/

structure AgentRecord where
  agentId : String
  hostname : String
  firstSeenAt : Instant
  lastSeenAt : Instant
  deriving DecidableEq

structure TelemetryBatchRecord where
  batchId : UUID
  agentId : String
  schemaVersion : ℤ
  observedStart : Instant
  observedEnd : Instant
  sampleCount : ℕ
  payload : Payload

structure OutboxEventRecord where
  eventId : UUID
  aggregateType : String
  aggregateId : String
  eventType : String
  payload : List (String × String)
  createdAt : Instant
  publishedAt : Option Instant
  publicationAttempts : ℕ
  deriving DecidableEq

structure FleetStateRecord where
  agentId : String
  lastBatchId : UUID
  observedAt : Instant
  cpuPercent : PyFloat
  memoryPercent : PyFloat
  diskPercent : PyFloat
  deriving DecidableEq

/-- The `evidence` document of an incident. -/
structure Evidence where
  batchId : String
  value : PyFloat
  threshold : PyFloat
  deriving DecidableEq

structure IncidentRecord where
  agentId : String
  incidentType : String
  deduplicationKey : String
  status : String
  severity : String
  summary : String
  evidence : Evidence
  deriving DecidableEq

/-- A message id is the place of the entry in its stream; its text is shorter than the column. -/
structure ProcessedEventRecord where
  eventId : UUID
  streamMessageId : ℕ
  consumerName : String
  deriving DecidableEq

structure DeadLetterRecord where
  streamMessageId : ℕ
  eventId : String
  errorType : String
  attempts : ℕ
  payload : List (String × String)
  deriving DecidableEq

/-- `uq_incident_open_deduplication`. -/
def IncidentRecord.uniqueKey (r : IncidentRecord) : String × String :=
  (r.deduplicationKey, r.status)

/-- The database. -/
structure Database where
  agents : Table AgentRecord.agentId
  telemetryBatches : Table TelemetryBatchRecord.batchId
  outboxEvents : Table OutboxEventRecord.eventId
  fleetState : Table FleetStateRecord.agentId
  incidents : Table IncidentRecord.uniqueKey
  processedEvents : Table ProcessedEventRecord.eventId
  deadLetters : Table DeadLetterRecord.streamMessageId

/-- The database after the migrations. -/
def Database.empty : Database :=
  ⟨.empty, .empty, .empty, .empty, .empty, .empty, .empty⟩

end FleetPulse
