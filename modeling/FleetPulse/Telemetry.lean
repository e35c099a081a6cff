import FleetPulse.Lib.Values
import FleetPulse.Lib.Json

/-! The telemetry contract that agents and the ingestion API share: the models, what their
    validation admits, their JSON-mode dump and its revalidation.

    Pydantic's and asyncpg's leaf conversions are not in this repository. They are the fields of
    `Libraries`, with the one law each that the code relies on: a value in the form the dump gives it
    is read back as itself. What this repository declares (which fields, which bounds, no extra keys,
    list lengths, the time-zone check) is defined here, and `TelemetryBatch.validate_dump` puts the
    two together: a batch with finite numbers comes back from its dump. -/

namespace FleetPulse
open Values

/-- A JSON number in Python: an integer or a float. -/
inductive PyNum where
  | int (n : ℤ)
  | float (x : PyFloat)
  deriving DecidableEq

/-- A JSON document as Python holds it. -/
abbrev Payload := Json String PyNum

/-- What the code takes from elsewhere: Pydantic's validators of single values, asyncpg's reading of
    a text bound to a UUID column, the order the database's collation gives to texts, and the nesting
    that the interpreter's recursion allows. -/
structure Libraries where
  validateInt : Payload → Option ℤ
  validateFloat : Payload → Option PyFloat
  validateDatetime : Payload → Option DateTime
  validateUuid : String → Option UUID
  bindUuid : String → Option UUID
  collate : String → String → Bool
  recursionLimit : ℕ
  validateInt_int : ∀ n, validateInt (.num (.int n)) = some n
  validateFloat_finite : ∀ q, validateFloat (.num (.float (.finite q))) = some (.finite q)
  validateFloat_null : validateFloat .null = none
  validateDatetime_iso : ∀ t, t.aware = true → validateDatetime (.str t.isoformat) = some t
  validateUuid_str : ∀ u : UUID, validateUuid u.str = some u
  bindUuid_str : ∀ u : UUID, bindUuid u.str = some u
  collate_trans : ∀ a b c, collate a b = true → collate b c = true → collate a c = true
  collate_total : ∀ a b, (collate a b || collate b a) = true

/-- Conversions that accept numbers of their own type, date-times as the dump writes them and the
    identifiers that Pydantic reads, and nothing else. -/
def Libraries.canonical : Libraries where
  validateInt | .num (.int n) => some n | _ => none
  validateFloat | .num (.float x) => some x | _ => none
  validateDatetime | .str s => DateTime.parse s | _ => none
  validateUuid := UUID.parse
  bindUuid := UUID.parse
  collate a b := a ≤ b
  recursionLimit := 1000
  validateInt_int _ := rfl
  validateFloat_finite _ := rfl
  validateFloat_null := rfl
  validateDatetime_iso t _ := DateTime.parse_isoformat t
  validateUuid_str := UUID.parse_str
  bindUuid_str := UUID.parse_str
  collate_trans a b c := by simpa using fun hab hbc => le_trans hab hbc
  collate_total a b := by simpa using le_total a b

/-! ### Field constraints -/

/-- `Field(ge=0)` on an integer. -/
def nonNegativeInt (n : ℤ) : Bool := 0 ≤ n

/-- `Field(ge=0)` on a float; not-a-number compares with nothing and is refused. -/
def nonNegativeFloat (x : PyFloat) : Bool := PyFloat.le (.finite 0) x

/-- `Field(ge=0, le=100)` on a float. -/
def percentage (x : PyFloat) : Bool := PyFloat.le (.finite 0) x && x.le (.finite 100)

theorem isFinite_of_percentage {x : PyFloat} (h : percentage x = true) : x.isFinite = true := by
  cases x with
  | finite q => rfl
  | nan | negInf | posInf => simp [percentage, PyFloat.le, PyFloat.lt] at h

/-- `Field(min_length=lo, max_length=hi)` on a string. -/
def textLength (lo hi : ℕ) (s : String) : Bool := lo ≤ s.length && s.length ≤ hi

/-- `Field(min_length=lo, max_length=hi)` on a list. -/
def listLength {α : Type} (lo hi : ℕ) (xs : List α) : Bool := lo ≤ xs.length && xs.length ≤ hi

/-- `[a-zA-Z0-9]`. -/
def isAsciiAlnum (c : Char) : Bool :=
  ('a' ≤ c && c ≤ 'z') || ('A' ≤ c && c ≤ 'Z') || ('0' ≤ c && c ≤ '9')

/-- `^[a-zA-Z0-9][a-zA-Z0-9._-]{0,127}$`. -/
def agentIdPattern (s : String) : Bool :=
  match s.toList with
  | [] => false
  | c :: cs => isAsciiAlnum c && cs.length ≤ 127 &&
      cs.all (fun c => isAsciiAlnum c || c = '.' || c = '_' || c = '-')

/-! ### Reading a mapping -/

/-- `extra="forbid"`: no key but the declared ones. -/
def onlyKeys (keys : List String) (kvs : List (String × Payload)) : Bool :=
  kvs.all (fun kv => keys.contains kv.1)

/-- A required field, through the validator of its type. -/
def required {α : Type} (kvs : List (String × Payload)) (key : String)
    (validate : Payload → Option α) : Option α := (kvs.lookup key).bind validate

/-- A value of type `str`. -/
def validateStr : Payload → Option String
  | .str s => some s
  | _ => none

/-- A value of type `list`, item by item. -/
def validateList {α : Type} (validate : Payload → Option α) : Payload → Option (List α)
  | .arr xs => xs.mapM validate
  | _ => none

/-- The value, if it meets the constraints. -/
def checked {α : Type} (valid : α → Bool) (a : α) : Option α := if valid a then some a else none

theorem checked_of_valid {α : Type} {valid : α → Bool} {a : α} (h : valid a = true) :
    checked valid a = some a := if_pos h

theorem valid_of_checked {α : Type} {valid : α → Bool} {a b : α} (h : checked valid a = some b) :
    b = a ∧ valid b = true := by
  unfold checked at h
  split at h
  · next hv => cases h; exact ⟨rfl, hv⟩
  · cases h

theorem validateList_map {α : Type} {validate : Payload → Option α} {dump : α → Payload} :
    ∀ {xs : List α}, (∀ x ∈ xs, validate (dump x) = some x) →
      validateList validate (.arr (xs.map dump)) = some xs
  | [], _ => rfl
  | x :: xs, h => by
      have hrest := validateList_map (fun y hy => h y (List.mem_cons_of_mem x hy))
      simp only [validateList] at hrest ⊢
      rw [List.map_cons, List.mapM_cons, h x (List.mem_cons_self ..), hrest]
      rfl

def intNum (n : ℤ) : Payload := .num (.int n)

def floatNum (x : PyFloat) : Payload := .num (.float x)

variable (libs : Libraries)

/-! ### ProcessTelemetry -/

structure ProcessTelemetry where
  pid : ℤ
  name : String
  cpuPercent : PyFloat
  memoryPercent : PyFloat
  deriving DecidableEq

namespace ProcessTelemetry

def valid (p : ProcessTelemetry) : Bool :=
  decide (1 ≤ p.pid) && textLength 1 256 p.name && nonNegativeFloat p.cpuPercent &&
    percentage p.memoryPercent

def finite (p : ProcessTelemetry) : Bool := p.cpuPercent.isFinite && p.memoryPercent.isFinite

def dump (p : ProcessTelemetry) : Payload :=
  .obj [("pid", intNum p.pid), ("name", .str p.name), ("cpu_percent", floatNum p.cpuPercent),
    ("memory_percent", floatNum p.memoryPercent)]

def validate : Payload → Option ProcessTelemetry
  | .obj kvs =>
    if onlyKeys ["pid", "name", "cpu_percent", "memory_percent"] kvs then do
      let pid ← required kvs "pid" libs.validateInt
      let name ← required kvs "name" validateStr
      let cpuPercent ← required kvs "cpu_percent" libs.validateFloat
      let memoryPercent ← required kvs "memory_percent" libs.validateFloat
      checked valid ⟨pid, name, cpuPercent, memoryPercent⟩
    else none
  | _ => none

theorem validate_dump {p : ProcessTelemetry} (hv : p.valid = true) (hf : p.finite = true) :
    validate libs p.dump = some p := by
  obtain ⟨pid, name, cpu, memory⟩ := p
  simp only [finite, Bool.and_eq_true] at hf
  obtain ⟨cpu, rfl⟩ := PyFloat.exists_of_isFinite hf.1
  obtain ⟨memory, rfl⟩ := PyFloat.exists_of_isFinite hf.2
  simpa [validate, dump, List.lookup_cons, onlyKeys, required, intNum, floatNum, validateStr,
    libs.validateInt_int, libs.validateFloat_finite] using checked_of_valid hv

end ProcessTelemetry

/-! ### DiskTelemetry -/

structure DiskTelemetry where
  mount : String
  totalBytes : ℤ
  usedBytes : ℤ
  freeBytes : ℤ
  usedPercent : PyFloat
  deriving DecidableEq

namespace DiskTelemetry

def valid (d : DiskTelemetry) : Bool :=
  textLength 1 512 d.mount && nonNegativeInt d.totalBytes && nonNegativeInt d.usedBytes &&
    nonNegativeInt d.freeBytes && percentage d.usedPercent

def finite (d : DiskTelemetry) : Bool := d.usedPercent.isFinite

theorem finite_of_valid {d : DiskTelemetry} (h : d.valid = true) : d.finite = true := by
  simp only [valid, Bool.and_eq_true] at h
  exact isFinite_of_percentage h.2

def dump (d : DiskTelemetry) : Payload :=
  .obj [("mount", .str d.mount), ("total_bytes", intNum d.totalBytes),
    ("used_bytes", intNum d.usedBytes), ("free_bytes", intNum d.freeBytes),
    ("used_percent", floatNum d.usedPercent)]

def validate : Payload → Option DiskTelemetry
  | .obj kvs =>
    if onlyKeys ["mount", "total_bytes", "used_bytes", "free_bytes", "used_percent"] kvs then do
      let mount ← required kvs "mount" validateStr
      let totalBytes ← required kvs "total_bytes" libs.validateInt
      let usedBytes ← required kvs "used_bytes" libs.validateInt
      let freeBytes ← required kvs "free_bytes" libs.validateInt
      let usedPercent ← required kvs "used_percent" libs.validateFloat
      checked valid ⟨mount, totalBytes, usedBytes, freeBytes, usedPercent⟩
    else none
  | _ => none

theorem validate_dump {d : DiskTelemetry} (hv : d.valid = true) (hf : d.finite = true) :
    validate libs d.dump = some d := by
  obtain ⟨mount, total, used, free, percent⟩ := d
  obtain ⟨percent, rfl⟩ := PyFloat.exists_of_isFinite hf
  simpa [validate, dump, List.lookup_cons, onlyKeys, required, intNum, floatNum, validateStr,
    libs.validateInt_int, libs.validateFloat_finite] using checked_of_valid hv

end DiskTelemetry

/-! ### MemoryTelemetry -/

structure MemoryTelemetry where
  totalBytes : ℤ
  availableBytes : ℤ
  usedBytes : ℤ
  usedPercent : PyFloat
  deriving DecidableEq

namespace MemoryTelemetry

def valid (m : MemoryTelemetry) : Bool :=
  nonNegativeInt m.totalBytes && nonNegativeInt m.availableBytes && nonNegativeInt m.usedBytes &&
    percentage m.usedPercent

def finite (m : MemoryTelemetry) : Bool := m.usedPercent.isFinite

theorem finite_of_valid {m : MemoryTelemetry} (h : m.valid = true) : m.finite = true := by
  simp only [valid, Bool.and_eq_true] at h
  exact isFinite_of_percentage h.2

def dump (m : MemoryTelemetry) : Payload :=
  .obj [("total_bytes", intNum m.totalBytes), ("available_bytes", intNum m.availableBytes),
    ("used_bytes", intNum m.usedBytes), ("used_percent", floatNum m.usedPercent)]

def validate : Payload → Option MemoryTelemetry
  | .obj kvs =>
    if onlyKeys ["total_bytes", "available_bytes", "used_bytes", "used_percent"] kvs then do
      let totalBytes ← required kvs "total_bytes" libs.validateInt
      let availableBytes ← required kvs "available_bytes" libs.validateInt
      let usedBytes ← required kvs "used_bytes" libs.validateInt
      let usedPercent ← required kvs "used_percent" libs.validateFloat
      checked valid ⟨totalBytes, availableBytes, usedBytes, usedPercent⟩
    else none
  | _ => none

theorem validate_dump {m : MemoryTelemetry} (hv : m.valid = true) (hf : m.finite = true) :
    validate libs m.dump = some m := by
  obtain ⟨total, available, used, percent⟩ := m
  obtain ⟨percent, rfl⟩ := PyFloat.exists_of_isFinite hf
  simpa [validate, dump, List.lookup_cons, onlyKeys, required, intNum, floatNum,
    libs.validateInt_int, libs.validateFloat_finite] using checked_of_valid hv

end MemoryTelemetry

/-! ### NetworkTelemetry -/

structure NetworkTelemetry where
  bytesSent : ℤ
  bytesReceived : ℤ
  packetsSent : ℤ
  packetsReceived : ℤ
  errorsIn : ℤ
  errorsOut : ℤ
  dropsIn : ℤ
  dropsOut : ℤ
  tcpEstablished : ℤ
  tcpListening : ℤ
  tcpOther : ℤ
  udpSockets : ℤ
  deriving DecidableEq

namespace NetworkTelemetry

/-- The counters under their field names. -/
def counters (n : NetworkTelemetry) : List (String × ℤ) :=
  [("bytes_sent", n.bytesSent), ("bytes_received", n.bytesReceived),
    ("packets_sent", n.packetsSent), ("packets_received", n.packetsReceived),
    ("errors_in", n.errorsIn), ("errors_out", n.errorsOut), ("drops_in", n.dropsIn),
    ("drops_out", n.dropsOut), ("tcp_established", n.tcpEstablished),
    ("tcp_listening", n.tcpListening), ("tcp_other", n.tcpOther), ("udp_sockets", n.udpSockets)]

def valid (n : NetworkTelemetry) : Bool := n.counters.all (fun kv => nonNegativeInt kv.2)

def dump (n : NetworkTelemetry) : Payload := .obj (n.counters.map (fun kv => (kv.1, intNum kv.2)))

def validate : Payload → Option NetworkTelemetry
  | .obj kvs =>
    if onlyKeys ["bytes_sent", "bytes_received", "packets_sent", "packets_received", "errors_in",
        "errors_out", "drops_in", "drops_out", "tcp_established", "tcp_listening", "tcp_other",
        "udp_sockets"] kvs then do
      let bytesSent ← required kvs "bytes_sent" libs.validateInt
      let bytesReceived ← required kvs "bytes_received" libs.validateInt
      let packetsSent ← required kvs "packets_sent" libs.validateInt
      let packetsReceived ← required kvs "packets_received" libs.validateInt
      let errorsIn ← required kvs "errors_in" libs.validateInt
      let errorsOut ← required kvs "errors_out" libs.validateInt
      let dropsIn ← required kvs "drops_in" libs.validateInt
      let dropsOut ← required kvs "drops_out" libs.validateInt
      let tcpEstablished ← required kvs "tcp_established" libs.validateInt
      let tcpListening ← required kvs "tcp_listening" libs.validateInt
      let tcpOther ← required kvs "tcp_other" libs.validateInt
      let udpSockets ← required kvs "udp_sockets" libs.validateInt
      checked valid ⟨bytesSent, bytesReceived, packetsSent, packetsReceived, errorsIn, errorsOut,
        dropsIn, dropsOut, tcpEstablished, tcpListening, tcpOther, udpSockets⟩
    else none
  | _ => none

theorem validate_dump {n : NetworkTelemetry} (hv : n.valid = true) :
    validate libs n.dump = some n := by
  obtain ⟨a, b, c, d, e, f, g, h, i, j, k, l⟩ := n
  simpa [validate, dump, List.lookup_cons, counters, onlyKeys, required, intNum,
    libs.validateInt_int] using checked_of_valid hv

end NetworkTelemetry

/-! ### TelemetrySample -/

structure TelemetrySample where
  observedAt : DateTime
  cpuPercent : PyFloat
  load1m : PyFloat
  load5m : PyFloat
  load15m : PyFloat
  memory : MemoryTelemetry
  disks : List DiskTelemetry
  network : NetworkTelemetry
  processCount : ℤ
  topProcesses : List ProcessTelemetry
  deriving DecidableEq

namespace TelemetrySample

/-- The constraints of the fields, and `observed_at_must_be_timezone_aware`. -/
def valid (s : TelemetrySample) : Bool :=
  s.observedAt.aware && percentage s.cpuPercent && nonNegativeFloat s.load1m &&
    nonNegativeFloat s.load5m && nonNegativeFloat s.load15m && s.memory.valid &&
    (listLength 1 32 s.disks && s.disks.all DiskTelemetry.valid) && s.network.valid &&
    nonNegativeInt s.processCount &&
    (listLength 0 20 s.topProcesses && s.topProcesses.all ProcessTelemetry.valid)

def finite (s : TelemetrySample) : Bool :=
  s.cpuPercent.isFinite && s.load1m.isFinite && s.load5m.isFinite && s.load15m.isFinite &&
    s.memory.finite && s.disks.all DiskTelemetry.finite &&
    s.topProcesses.all ProcessTelemetry.finite

def dump (s : TelemetrySample) : Payload :=
  .obj [("observed_at", .str s.observedAt.isoformat), ("cpu_percent", floatNum s.cpuPercent),
    ("load_1m", floatNum s.load1m), ("load_5m", floatNum s.load5m),
    ("load_15m", floatNum s.load15m), ("memory", s.memory.dump),
    ("disks", .arr (s.disks.map DiskTelemetry.dump)), ("network", s.network.dump),
    ("process_count", intNum s.processCount),
    ("top_processes", .arr (s.topProcesses.map ProcessTelemetry.dump))]

def validate : Payload → Option TelemetrySample
  | .obj kvs =>
    if onlyKeys ["observed_at", "cpu_percent", "load_1m", "load_5m", "load_15m", "memory", "disks",
        "network", "process_count", "top_processes"] kvs then do
      let observedAt ← required kvs "observed_at" libs.validateDatetime
      let cpuPercent ← required kvs "cpu_percent" libs.validateFloat
      let load1m ← required kvs "load_1m" libs.validateFloat
      let load5m ← required kvs "load_5m" libs.validateFloat
      let load15m ← required kvs "load_15m" libs.validateFloat
      let memory ← required kvs "memory" (MemoryTelemetry.validate libs)
      let disks ← required kvs "disks" (validateList (DiskTelemetry.validate libs))
      let network ← required kvs "network" (NetworkTelemetry.validate libs)
      let processCount ← required kvs "process_count" libs.validateInt
      let topProcesses ← required kvs "top_processes" (validateList (ProcessTelemetry.validate libs))
      checked valid ⟨observedAt, cpuPercent, load1m, load5m, load15m, memory, disks, network,
        processCount, topProcesses⟩
    else none
  | _ => none

theorem disks_ne_nil {s : TelemetrySample} (h : s.valid = true) : s.disks ≠ [] := by
  simp only [valid, listLength, Bool.and_eq_true, decide_eq_true_eq] at h
  intro hnil
  have := h.1.1.1.2.1.1
  simp [hnil] at this

theorem validate_dump {s : TelemetrySample} (hv : s.valid = true) (hf : s.finite = true) :
    validate libs s.dump = some s := by
  obtain ⟨at_, cpu, l1, l5, l15, memory, disks, network, count, processes⟩ := s
  simp only [finite, Bool.and_eq_true, List.all_eq_true] at hf
  obtain ⟨⟨⟨⟨⟨⟨hcpu, h1⟩, h5⟩, h15⟩, hmem⟩, hdisks⟩, hprocs⟩ := hf
  have hvalid := hv
  simp only [valid, Bool.and_eq_true, List.all_eq_true] at hv
  obtain ⟨⟨⟨⟨⟨⟨⟨⟨⟨haware, -⟩, -⟩, -⟩, -⟩, hvmem⟩, -, hvdisks⟩, hvnet⟩, -⟩, -, hvprocs⟩ := hv
  obtain ⟨cpu, rfl⟩ := PyFloat.exists_of_isFinite hcpu
  obtain ⟨l1, rfl⟩ := PyFloat.exists_of_isFinite h1
  obtain ⟨l5, rfl⟩ := PyFloat.exists_of_isFinite h5
  obtain ⟨l15, rfl⟩ := PyFloat.exists_of_isFinite h15
  have hd := validateList_map (fun d hd => DiskTelemetry.validate_dump libs (hvdisks d hd)
    (hdisks d hd))
  have hp := validateList_map (fun p hp => ProcessTelemetry.validate_dump libs (hvprocs p hp)
    (hprocs p hp))
  simpa [validate, dump, List.lookup_cons, onlyKeys, required, intNum, floatNum,
    libs.validateInt_int, libs.validateFloat_finite, libs.validateDatetime_iso _ haware,
    MemoryTelemetry.validate_dump libs hvmem hmem, NetworkTelemetry.validate_dump libs hvnet,
    hd, hp] using checked_of_valid hvalid

end TelemetrySample

/-! ### TelemetryBatch -/

/-- The constraints on the fields of a batch. -/
def batchValid (agentId hostname : String) (samples : List TelemetrySample) : Bool :=
  agentIdPattern agentId && textLength 1 255 hostname && listLength 1 100 samples &&
    samples.all TelemetrySample.valid

/-- A batch that has passed validation; its `schema_version` is 1. -/
structure TelemetryBatch where
  batchId : UUID
  agentId : String
  hostname : String
  samples : List TelemetrySample
  valid : batchValid agentId hostname samples = true
  deriving DecidableEq

namespace TelemetryBatch

def schemaVersion : ℤ := 1

theorem samples_ne_nil (b : TelemetryBatch) : b.samples ≠ [] := by
  have h := b.valid
  simp only [batchValid, listLength, Bool.and_eq_true, decide_eq_true_eq] at h
  intro hnil
  have := h.1.2.1
  simp [hnil] at this

theorem sample_valid (b : TelemetryBatch) : ∀ s ∈ b.samples, s.valid = true := by
  have h := b.valid
  simp only [batchValid, Bool.and_eq_true, List.all_eq_true] at h
  exact h.2

def finite (b : TelemetryBatch) : Bool := b.samples.all TelemetrySample.finite

/-- The constructor `TelemetryBatch(...)`: a value, or a `ValidationError`. -/
def construct (batchId : UUID) (agentId hostname : String) (samples : List TelemetrySample) :
    Option TelemetryBatch :=
  if h : batchValid agentId hostname samples = true then
    some ⟨batchId, agentId, hostname, samples, h⟩
  else none

/-- `batch.model_dump(mode="json")`. -/
def dump (b : TelemetryBatch) : Payload :=
  .obj [("schema_version", intNum schemaVersion), ("batch_id", .str b.batchId.str),
    ("agent_id", .str b.agentId), ("hostname", .str b.hostname),
    ("samples", .arr (b.samples.map TelemetrySample.dump))]

/-- `Literal[1] = 1`: absent, or a value that equals 1. -/
def validateSchemaVersion : Option Payload → Bool
  | none => true
  | some (.num (.int n)) => n = 1
  | some (.num (.float x)) => x = .finite 1
  | some (.bool b) => b
  | some _ => false

/-- `TelemetryBatch.model_validate(payload)`. -/
def validate : Payload → Option TelemetryBatch
  | .obj kvs =>
    if onlyKeys ["schema_version", "batch_id", "agent_id", "hostname", "samples"] kvs &&
        validateSchemaVersion (kvs.lookup "schema_version") then do
      let batchId ← (required kvs "batch_id" validateStr).bind libs.validateUuid
      let agentId ← required kvs "agent_id" validateStr
      let hostname ← required kvs "hostname" validateStr
      let samples ← required kvs "samples" (validateList (TelemetrySample.validate libs))
      construct batchId agentId hostname samples
    else none
  | _ => none

/-- ROUND TRIP: a batch with finite numbers comes back from its dump. -/
theorem validate_dump {b : TelemetryBatch} (hf : b.finite = true) :
    validate libs b.dump = some b := by
  obtain ⟨id, agent, host, samples, hv⟩ := b
  have hsamples := hv
  simp only [finite, List.all_eq_true] at hf
  simp only [batchValid, Bool.and_eq_true, List.all_eq_true] at hsamples
  have hs := validateList_map
    (fun s h => TelemetrySample.validate_dump libs (hsamples.2 s h) (hf s h))
  simp [validate, dump, List.lookup_cons, onlyKeys, required, validateStr, intNum,
    validateSchemaVersion, schemaVersion, libs.validateUuid_str, hs, construct, hv]

end TelemetryBatch

end FleetPulse
