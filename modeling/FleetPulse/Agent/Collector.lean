import FleetPulse.Lib.Floats
import FleetPulse.Lib.Selection
import FleetPulse.Agent.Main

/-! `collect_sample`: one snapshot of the host.

        process_iter ─▶ append or skip ─▶ sort ─▶ [:limit]      _top_processes
        net_connections ─▶ one of four counts, or none          _network_telemetry
        host readings ─▶ max(0.0, load) ─▶ TelemetrySample      collect_sample

    What psutil and the operating system answer is a `Host`; every reading in it is arbitrary. The
    snapshot fails on the readings of the host as a whole only (`Host.InRange`): a process that
    cannot be read, or reads badly, is skipped or clamped, a refused list of connections counts as
    empty, and a load average below zero counts as zero. -/

namespace FleetPulse
open Values Selection

/-! ### Processes -/

/-- `process.info`; `None` for a value that was refused. -/
structure ProcessInfo where
  pid : ℤ
  name : Option String
  cpuPercent : Option PyFloat
  memoryPercent : Option PyFloat

/-- `float(value or 0.0)`. -/
def orZero (value : Option PyFloat) : PyFloat := value.getD (.finite 0)

/-- `str(name or "unknown")[:256]`. -/
def processName (name : Option String) : String :=
  let name := match name with
    | none | some "" => "unknown"
    | some name => name
  String.ofList (name.toList.take 256)

/-- `ProcessTelemetry(...)` of `_top_processes`: a value, or a `ValidationError`. -/
def ProcessInfo.telemetry (info : ProcessInfo) : Option ProcessTelemetry :=
  checked ProcessTelemetry.valid
    { pid := info.pid
      name := processName info.name
      cpuPercent := .maxOf (.finite 0) (orZero info.cpuPercent)
      memoryPercent :=
        .maxOf (.finite 0) (.minOf (.finite 100) (orZero info.memoryPercent)) }

/-- `key=lambda item: (item.cpu_percent, item.memory_percent)`. -/
def ProcessTelemetry.usage (item : ProcessTelemetry) : PyFloat × PyFloat :=
  (item.cpuPercent, item.memoryPercent)

/-- The body of the loop of `_top_processes`; `none` is a process whose `info` raises one of the
    errors that the loop catches. -/
def countProcess (acc : ℕ × List ProcessTelemetry) (process : Option ProcessInfo) :
    ℕ × List ProcessTelemetry :=
  match process.bind ProcessInfo.telemetry with
  | some item => (acc.1 + 1, acc.2 ++ [item])
  | none => (acc.1 + 1, acc.2)

/-- `_top_processes(limit)`. -/
def topProcesses (processes : List (Option ProcessInfo)) (limit : ℕ) : ℕ × List ProcessTelemetry :=
  let (processCount, items) := processes.foldl countProcess (0, [])
  -- reverse=True: an item stands before another unless its key is the smaller one
  (processCount, (items.insertionSort fun a b => !PyFloat.pairLt a.usage b.usage).take limit)

/-- The processes that the loop appends. -/
def readableProcesses (processes : List (Option ProcessInfo)) : List ProcessTelemetry :=
  processes.filterMap (fun process => process.bind ProcessInfo.telemetry)

theorem foldl_countProcess : ∀ (processes : List (Option ProcessInfo))
    (acc : ℕ × List ProcessTelemetry), processes.foldl countProcess acc =
      (acc.1 + processes.length, acc.2 ++ readableProcesses processes)
  | [], acc => by simp [readableProcesses]
  | process :: processes, acc => by
      rw [List.foldl_cons, foldl_countProcess processes]
      unfold countProcess readableProcesses
      rw [List.filterMap_cons]
      cases process.bind ProcessInfo.telemetry <;> simp [Nat.add_comm, Nat.add_left_comm]

/-- A number of the extended line that is at least zero. -/
theorem maxOf_zero (x : PyFloat) :
    PyFloat.maxOf (.finite 0) x ≠ .nan ∧ nonNegativeFloat (.maxOf (.finite 0) x) = true := by
  cases x with
  | finite q =>
    by_cases h : 0 < q
    · simp [PyFloat.maxOf, PyFloat.lt, nonNegativeFloat, h, h.le]
    · simp [PyFloat.maxOf, PyFloat.lt, nonNegativeFloat, h]
  | nan | negInf | posInf => simp [PyFloat.maxOf, PyFloat.le, PyFloat.lt, nonNegativeFloat]

/-- `max(0.0, min(100.0, x))` is a percentage, whatever `x` is. -/
theorem clamp_percentage (x : PyFloat) :
    percentage (.maxOf (.finite 0) (.minOf (.finite 100) x)) = true := by
  cases x with
  | finite q =>
    by_cases hhigh : q < 100
    · by_cases hlow : 0 < q
      · simp [PyFloat.maxOf, PyFloat.minOf, PyFloat.lt, percentage, hhigh, hlow, hlow.le, hhigh.le]
      · simp [PyFloat.maxOf, PyFloat.minOf, PyFloat.lt, percentage, hhigh, hlow]
    · simp [PyFloat.maxOf, PyFloat.minOf, PyFloat.lt, percentage, hhigh]
  | nan | negInf | posInf => simp [PyFloat.maxOf, PyFloat.minOf, PyFloat.le, PyFloat.lt, percentage]

theorem processName_length (name : Option String) : textLength 1 256 (processName name) = true := by
  have hpos : ∀ s : String, s ≠ "" → 1 ≤ s.toList.length := by
    intro s hs
    rw [Nat.one_le_iff_ne_zero, ne_eq, List.length_eq_zero_iff, String.toList_eq_nil_iff]
    exact hs
  unfold processName
  split
  · decide
  · decide
  · next name hne =>
    have hname := hpos name (fun h => hne (h ▸ rfl))
    simp only [textLength, ← String.length_toList, String.toList_ofList, List.length_take,
      Bool.and_eq_true, decide_eq_true_eq]
    omega

/-- A process is skipped for its pid only. -/
theorem ProcessInfo.telemetry_eq_none_iff (info : ProcessInfo) :
    info.telemetry = none ↔ info.pid < 1 := by
  simp [telemetry, checked, ProcessTelemetry.valid, processName_length, clamp_percentage,
    (maxOf_zero _).2]

theorem ProcessInfo.telemetry_eq_some {info : ProcessInfo} {item : ProcessTelemetry}
    (h : info.telemetry = some item) :
    item.valid = true ∧ item.cpuPercent ≠ .nan ∧ item.memoryPercent ≠ .nan := by
  obtain ⟨rfl, hvalid⟩ := valid_of_checked h
  exact ⟨hvalid, (maxOf_zero _).1, (maxOf_zero _).1⟩

/-- A process that can be read and has a positive pid. -/
def listable (process : Option ProcessInfo) : Bool := process.any (fun info => 1 ≤ info.pid)

theorem length_readableProcesses (processes : List (Option ProcessInfo)) :
    (readableProcesses processes).length = processes.countP listable := by
  induction processes with
  | nil => rfl
  | cons process processes ih =>
    rw [readableProcesses, List.filterMap_cons, List.countP_cons]
    cases process with
    | none => simpa [readableProcesses, listable] using ih
    | some info =>
      have hnone := ProcessInfo.telemetry_eq_none_iff info
      cases hitem : info.telemetry with
      | none =>
        have hpid : ¬ 1 ≤ info.pid := by simpa [hitem] using hnone
        simpa [readableProcesses, listable, hitem, hpid] using ih
      | some item =>
        have hpid : 1 ≤ info.pid := by simpa [hitem] using hnone
        simpa [readableProcesses, listable, hitem, hpid] using ih

/-- The count covers every process, the skipped ones included, and the items are the `limit` highest
    by CPU and then memory, ties in the order of the enumeration. -/
theorem topProcesses_spec (processes : List (Option ProcessInfo)) (limit : ℕ) :
    (topProcesses processes limit).1 = processes.length ∧
      TopK (fun item => PyFloat.pairLevel (ProcessTelemetry.usage item)) limit
        (readableProcesses processes) (topProcesses processes limit).2 ∧
      (topProcesses processes limit).2.length = min limit (processes.countP listable) ∧
      ∀ item ∈ (topProcesses processes limit).2, item.valid = true := by
  have hvalid : ∀ item ∈ readableProcesses processes,
      item.valid = true ∧ item.cpuPercent ≠ .nan ∧ item.memoryPercent ≠ .nan := by
    intro item hitem
    obtain ⟨process, -, hread⟩ := List.mem_filterMap.mp hitem
    obtain ⟨info, -, hinfo⟩ := Option.bind_eq_some_iff.mp hread
    exact ProcessInfo.telemetry_eq_some hinfo
  have heq : topProcesses processes limit = (processes.length,
      ((readableProcesses processes).insertionSort
        fun a b => !PyFloat.pairLt a.usage b.usage).take limit) := by
    rw [topProcesses, foldl_countProcess]
    simp
  -- no item holds a NaN, so the comparison of the keys is a linear order
  have hkeys : ∀ a ∈ readableProcesses processes, ∀ b ∈ readableProcesses processes,
      (!PyFloat.pairLt a.usage b.usage) = true ↔
        PyFloat.pairLevel b.usage ≤ PyFloat.pairLevel a.usage := by
    intro a ha b hb
    rw [Bool.not_eq_true', ← Bool.not_eq_true,
      PyFloat.pairLt_iff_level (hvalid a ha).2 (hvalid b hb).2, not_lt]
  have htop := topK_take_insertionSort limit hkeys
  rw [heq]
  refine ⟨rfl, htop, ?_, fun item hitem => (hvalid item (htop.subset item hitem)).1⟩
  rw [htop.length, length_readableProcesses]

/-! ### Sockets -/

/-- `connection.type`. -/
inductive SocketType where
  | stream
  | datagram
  | other
  deriving DecidableEq

/-- `connection.status`; `other` is any of psutil's other states. -/
inductive ConnectionStatus where
  | established
  | listen
  | other
  deriving DecidableEq

structure SocketConnection where
  type : SocketType
  status : ConnectionStatus
  deriving DecidableEq

/-- `psutil.net_io_counters()`. -/
structure NetworkCounters where
  bytesSent : ℤ
  bytesRecv : ℤ
  packetsSent : ℤ
  packetsRecv : ℤ
  errin : ℤ
  errout : ℤ
  dropin : ℤ
  dropout : ℤ

/-- `tcp_established`, `tcp_listening`, `tcp_other` and `udp_sockets`. -/
structure SocketCounts where
  tcpEstablished : ℤ
  tcpListening : ℤ
  tcpOther : ℤ
  udpSockets : ℤ

/-- The body of the loop of `_network_telemetry`. -/
def SocketCounts.count (counts : SocketCounts) (connection : SocketConnection) : SocketCounts :=
  match connection.type with
  | .datagram => { counts with udpSockets := counts.udpSockets + 1 }
  | .stream =>
    match connection.status with
    | .established => { counts with tcpEstablished := counts.tcpEstablished + 1 }
    | .listen => { counts with tcpListening := counts.tcpListening + 1 }
    | .other => { counts with tcpOther := counts.tcpOther + 1 }
  | .other => counts

/-- `_network_telemetry()`: `counters` is `none` where the host has no interface, `connections` where
    it refuses the list. -/
def networkTelemetry (counters : Option NetworkCounters)
    (connections : Option (List SocketConnection)) : Option NetworkTelemetry := do
  let counts := (connections.getD []).foldl SocketCounts.count ⟨0, 0, 0, 0⟩
  let counters ← counters
  checked NetworkTelemetry.valid
    { bytesSent := counters.bytesSent
      bytesReceived := counters.bytesRecv
      packetsSent := counters.packetsSent
      packetsReceived := counters.packetsRecv
      errorsIn := counters.errin
      errorsOut := counters.errout
      dropsIn := counters.dropin
      dropsOut := counters.dropout
      tcpEstablished := counts.tcpEstablished
      tcpListening := counts.tcpListening
      tcpOther := counts.tcpOther
      udpSockets := counts.udpSockets }

/-- How many of the connections are of a type and in one of some states. -/
def socketCount (type : SocketType) (state : ConnectionStatus → Bool)
    (connections : List SocketConnection) : ℤ :=
  (connections.countP (fun connection =>
    decide (connection.type = type) && state connection.status) : ℕ)

theorem socketCount_cons (type : SocketType) (state : ConnectionStatus → Bool)
    (connection : SocketConnection) (connections : List SocketConnection) :
    socketCount type state (connection :: connections) = socketCount type state connections +
      if connection.type = type ∧ state connection.status = true then 1 else 0 := by
  simp only [socketCount, List.countP_cons, Bool.and_eq_true, decide_eq_true_eq]
  split <;> simp

/-- Each connection is in one count, or in none. -/
theorem foldl_count (connections : List SocketConnection) (counts : SocketCounts) :
    connections.foldl SocketCounts.count counts =
      { tcpEstablished := counts.tcpEstablished + socketCount .stream (· = .established) connections
        tcpListening := counts.tcpListening + socketCount .stream (· = .listen) connections
        tcpOther := counts.tcpOther + socketCount .stream (· = .other) connections
        udpSockets := counts.udpSockets + socketCount .datagram (fun _ => true) connections } := by
  induction connections generalizing counts with
  | nil => simp [socketCount]
  | cons connection connections ih =>
    obtain ⟨type, status⟩ := connection
    rw [List.foldl_cons, ih]
    simp only [socketCount_cons, SocketCounts.mk.injEq]
    cases type <;> cases status <;> simp [SocketCounts.count] <;> omega

theorem socketCount_stream (connections : List SocketConnection) :
    socketCount .stream (· = .established) connections +
      socketCount .stream (· = .listen) connections +
      socketCount .stream (· = .other) connections =
        socketCount .stream (fun _ => true) connections := by
  induction connections with
  | nil => simp [socketCount]
  | cons connection connections ih =>
    obtain ⟨type, status⟩ := connection
    simp only [socketCount_cons]
    cases type <;> cases status <;> simp <;> omega

theorem socketCount_nonneg (type : SocketType) (state : ConnectionStatus → Bool)
    (connections : List SocketConnection) : 0 ≤ socketCount type state connections :=
  Int.natCast_nonneg _

/-! ### The sample -/

/-- What the host answers. -/
structure Host where
  cpuPercent : PyFloat
  loadavg : PyFloat × PyFloat × PyFloat
  memoryTotal : ℤ
  memoryAvailable : ℤ
  memoryUsed : ℤ
  memoryPercent : PyFloat
  rootTotal : ℤ
  rootUsed : ℤ
  rootFree : ℤ
  rootPercent : PyFloat
  counters : Option NetworkCounters
  connections : Option (List SocketConnection)
  processes : List (Option ProcessInfo)

/-- The arguments of `MemoryTelemetry(...)`. -/
def Host.memory (host : Host) : MemoryTelemetry :=
  { totalBytes := host.memoryTotal
    availableBytes := host.memoryAvailable
    usedBytes := host.memoryUsed
    usedPercent := host.memoryPercent }

/-- The arguments of `DiskTelemetry(mount="/", ...)`. -/
def Host.rootDisk (host : Host) : DiskTelemetry :=
  { mount := "/"
    totalBytes := host.rootTotal
    usedBytes := host.rootUsed
    freeBytes := host.rootFree
    usedPercent := host.rootPercent }

/-- The arguments of `TelemetrySample(...)`. -/
def Host.snapshot (host : Host) (now : DateTime) (memory : MemoryTelemetry) (disk : DiskTelemetry)
    (network : NetworkTelemetry) : TelemetrySample :=
  let (processCount, processes) := topProcesses host.processes 10
  let (load1m, load5m, load15m) := host.loadavg
  { observedAt := now
    cpuPercent := host.cpuPercent
    load1m := .maxOf (.finite 0) load1m
    load5m := .maxOf (.finite 0) load5m
    load15m := .maxOf (.finite 0) load15m
    memory := memory
    disks := [disk]
    network := network
    processCount := processCount
    topProcesses := processes }

/-- `collect_sample()`, with `now` for `datetime.now(UTC)`: a value, or an exception. -/
def collectSample (host : Host) (now : DateTime) : Option TelemetrySample := do
  let memory ← checked MemoryTelemetry.valid host.memory
  let disk ← checked DiskTelemetry.valid host.rootDisk
  let network ← networkTelemetry host.counters host.connections
  checked TelemetrySample.valid (host.snapshot now memory disk network)

/-- No counter is negative. -/
structure NetworkCounters.InRange (counters : NetworkCounters) : Prop where
  bytesSent : 0 ≤ counters.bytesSent
  bytesRecv : 0 ≤ counters.bytesRecv
  packetsSent : 0 ≤ counters.packetsSent
  packetsRecv : 0 ≤ counters.packetsRecv
  errin : 0 ≤ counters.errin
  errout : 0 ≤ counters.errout
  dropin : 0 ≤ counters.dropin
  dropout : 0 ≤ counters.dropout

/-- The readings of the host as a whole are what the contract admits. -/
structure Host.InRange (host : Host) : Prop where
  cpu : percentage host.cpuPercent = true
  memory : host.memory.valid = true
  disk : host.rootDisk.valid = true
  counters : ∃ counters, host.counters = some counters ∧ counters.InRange

/-- The readings that have no upper bound are not infinite. -/
structure Host.Finite (host : Host) : Prop where
  load1m : host.loadavg.1 ≠ .posInf
  load5m : host.loadavg.2.1 ≠ .posInf
  load15m : host.loadavg.2.2 ≠ .posInf
  processes : ∀ info, some info ∈ host.processes → info.cpuPercent ≠ some .posInf

theorem networkTelemetry_eq_some_iff {counters : Option NetworkCounters}
    {connections : Option (List SocketConnection)} :
    (∃ network, networkTelemetry counters connections = some network) ↔
      ∃ c, counters = some c ∧ c.InRange := by
  cases counters with
  | none => simp [networkTelemetry]
  | some c =>
    have hcounts := fun type state => socketCount_nonneg type state (connections.getD [])
    simp only [networkTelemetry, foldl_count, checked, NetworkTelemetry.valid,
      NetworkTelemetry.counters, Option.bind_eq_bind, Option.bind_some, nonNegativeInt]
    constructor
    · rintro ⟨network, h⟩
      refine ⟨c, rfl, ?_⟩
      split at h
      · next hall =>
        simp only [List.all_cons, Bool.and_eq_true, decide_eq_true_eq] at hall
        obtain ⟨h1, h2, h3, h4, h5, h6, h7, h8, -⟩ := hall
        exact ⟨h1, h2, h3, h4, h5, h6, h7, h8⟩
      · cases h
    · rintro ⟨c', heq, h⟩
      cases heq
      refine ⟨_, if_pos ?_⟩
      simp [h.bytesSent, h.bytesRecv, h.packetsSent, h.packetsRecv, h.errin, h.errout, h.dropin,
        h.dropout, hcounts]

theorem networkTelemetry_counts {counters : Option NetworkCounters}
    {connections : Option (List SocketConnection)} {network : NetworkTelemetry}
    (h : networkTelemetry counters connections = some network) :
    network.valid = true ∧
      network.tcpEstablished + network.tcpListening + network.tcpOther =
        socketCount .stream (fun _ => true) (connections.getD []) ∧
      network.udpSockets = socketCount .datagram (fun _ => true) (connections.getD []) := by
  unfold networkTelemetry at h
  obtain ⟨c, rfl, hchecked⟩ := Option.bind_eq_some_iff.mp h
  obtain ⟨rfl, hvalid⟩ := valid_of_checked hchecked
  refine ⟨hvalid, ?_, ?_⟩
  · rw [foldl_count, ← socketCount_stream]
    simp
  · rw [foldl_count]
    simp

theorem maxOf_zero_isFinite {x : PyFloat} (h : x ≠ .posInf) :
    (PyFloat.maxOf (.finite 0) x).isFinite = true := by
  cases x with
  | posInf => exact absurd rfl h
  | finite q =>
    unfold PyFloat.maxOf
    split <;> rfl
  | nan | negInf => rfl

theorem ProcessInfo.telemetry_finite {info : ProcessInfo} {item : ProcessTelemetry}
    (h : info.telemetry = some item) (hcpu : info.cpuPercent ≠ some .posInf) :
    item.finite = true := by
  obtain ⟨rfl, -⟩ := valid_of_checked h
  have hzero : orZero info.cpuPercent ≠ .posInf := by
    cases hvalue : info.cpuPercent with
    | none => simp [orZero]
    | some x => simpa [orZero, hvalue] using hcpu
  simp [ProcessTelemetry.finite, maxOf_zero_isFinite hzero,
    isFinite_of_percentage (clamp_percentage _)]

theorem collectSample_eq_some {host : Host} {now : DateTime} {sample : TelemetrySample}
    (h : collectSample host now = some sample) : ∃ network,
      networkTelemetry host.counters host.connections = some network ∧
      host.memory.valid = true ∧ host.rootDisk.valid = true ∧ sample.valid = true ∧
      sample = host.snapshot now host.memory host.rootDisk network := by
  unfold collectSample at h
  obtain ⟨memory, hmemory, h⟩ := Option.bind_eq_some_iff.mp h
  obtain ⟨disk, hdisk, h⟩ := Option.bind_eq_some_iff.mp h
  obtain ⟨network, hnetwork, h⟩ := Option.bind_eq_some_iff.mp h
  obtain ⟨rfl, hmemvalid⟩ := valid_of_checked hmemory
  obtain ⟨rfl, hdiskvalid⟩ := valid_of_checked hdisk
  obtain ⟨rfl, hvalid⟩ := valid_of_checked h
  exact ⟨network, hnetwork, hmemvalid, hdiskvalid, hvalid, rfl⟩

theorem snapshot_valid {host : Host} {now : DateTime} {network : NetworkTelemetry}
    (hnow : now.aware = true) (h : host.InRange) (hnetwork : network.valid = true) :
    (host.snapshot now host.memory host.rootDisk network).valid = true := by
  obtain ⟨-, -, hlength, hvalid⟩ := topProcesses_spec host.processes 10
  have htwenty : (topProcesses host.processes 10).2.length ≤ 20 := by
    rw [hlength]
    omega
  simp only [TelemetrySample.valid, Host.snapshot, hnow, h.cpu, (maxOf_zero _).2, h.memory,
    listLength, hnetwork, nonNegativeInt, Bool.and_eq_true, List.all_eq_true]
  simp only [h.disk, htwenty, decide_true, List.length_singleton, List.mem_singleton, forall_eq,
    Nat.zero_le, Int.natCast_nonneg, and_self, true_and, Nat.one_le_ofNat, le_refl]
  exact hvalid

theorem snapshot_finite {host : Host} {now : DateTime} {network : NetworkTelemetry}
    (hrange : host.InRange) (h : host.Finite) :
    (host.snapshot now host.memory host.rootDisk network).finite = true := by
  have hprocesses : ∀ item ∈ (topProcesses host.processes 10).2, item.finite = true := by
    intro item hitem
    have hread := (topProcesses_spec host.processes 10).2.1.subset item hitem
    obtain ⟨process, hmem, hprocess⟩ := List.mem_filterMap.mp hread
    obtain ⟨info, rfl, hinfo⟩ := Option.bind_eq_some_iff.mp hprocess
    exact ProcessInfo.telemetry_finite hinfo (h.processes info hmem)
  simp only [TelemetrySample.finite, Host.snapshot, Bool.and_eq_true, List.all_eq_true]
  simp [isFinite_of_percentage hrange.cpu, maxOf_zero_isFinite h.load1m,
    maxOf_zero_isFinite h.load5m, maxOf_zero_isFinite h.load15m,
    MemoryTelemetry.finite_of_valid hrange.memory, DiskTelemetry.finite_of_valid hrange.disk]
  exact hprocesses

theorem inRange_of_collectSample {host : Host} {now : DateTime} {sample : TelemetrySample}
    (h : collectSample host now = some sample) : host.InRange := by
  obtain ⟨network, hnetwork, hmemory, hdisk, hvalid, rfl⟩ := collectSample_eq_some h
  simp only [TelemetrySample.valid, Bool.and_eq_true] at hvalid
  exact ⟨hvalid.1.1.1.1.1.1.1.1.2, hmemory, hdisk,
    networkTelemetry_eq_some_iff.mp ⟨network, hnetwork⟩⟩

theorem collectSample_of_inRange {host : Host} {now : DateTime} (hnow : now.aware = true)
    (h : host.InRange) : ∃ sample, collectSample host now = some sample := by
  obtain ⟨network, hnetwork⟩ :=
    (@networkTelemetry_eq_some_iff host.counters host.connections).mpr h.counters
  refine ⟨host.snapshot now host.memory host.rootDisk network, ?_⟩
  simp only [collectSample, checked_of_valid h.memory, checked_of_valid h.disk, hnetwork,
    Option.bind_eq_bind, Option.bind_some]
  exact checked_of_valid (snapshot_valid hnow h (networkTelemetry_counts hnetwork).1)

/-- COLLECTION: it raises on a reading of the host as a whole that the contract refuses, and on
    nothing else. A sample it returns is one the contract admits, and it comes back from its dump when
    no reading is infinite; it counts every process and every TCP and UDP socket, and lists the ten
    highest of the processes that could be read. -/
theorem sample_collected (host : Host) (now : DateTime) (hnow : now.aware = true) :
    (collectSample host now = none ↔ ¬ host.InRange) ∧
      ∀ sample, collectSample host now = some sample →
        (sample.valid = true ∧ (host.Finite → ∀ libs : Libraries,
          TelemetrySample.validate libs sample.dump = some sample)) ∧
        (sample.processCount = host.processes.length ∧
          TopK (fun item => PyFloat.pairLevel (ProcessTelemetry.usage item)) 10
            (readableProcesses host.processes) sample.topProcesses ∧
          sample.topProcesses.length = min 10 (host.processes.countP listable)) ∧
        sample.network.tcpEstablished + sample.network.tcpListening + sample.network.tcpOther =
          socketCount .stream (fun _ => true) (host.connections.getD []) ∧
        sample.network.udpSockets =
          socketCount .datagram (fun _ => true) (host.connections.getD []) := by
  refine ⟨⟨?_, ?_⟩, ?_⟩
  · intro hnone hrange
    obtain ⟨sample, hsample⟩ := collectSample_of_inRange hnow hrange
    rw [hnone] at hsample
    cases hsample
  · intro hrange
    cases hcollect : collectSample host now with
    | none => rfl
    | some sample => exact absurd (inRange_of_collectSample hcollect) hrange
  · intro sample hcollect
    have hrange := inRange_of_collectSample hcollect
    obtain ⟨network, hnetwork, -, -, hvalid, rfl⟩ := collectSample_eq_some hcollect
    obtain ⟨-, htcp, hudp⟩ := networkTelemetry_counts hnetwork
    obtain ⟨hcount, htop, hlength, -⟩ := topProcesses_spec host.processes 10
    have hdump := fun (hfinite : host.Finite) libs =>
      TelemetrySample.validate_dump libs hvalid (snapshot_finite hrange hfinite)
    exact ⟨⟨hvalid, hdump⟩, ⟨congrArg Nat.cast hcount, htop, hlength⟩, htcp, hudp⟩

/-- A host without a list of connections, with a negative load average and with four processes: a
    kernel task, one that cannot be read, and two whose memory share is out of range. -/
def roughHost : Host :=
  { cpuPercent := .finite 20
    loadavg := (.finite 1, .finite (-1), .nan)
    memoryTotal := 16
    memoryAvailable := 8
    memoryUsed := 8
    memoryPercent := .finite 50
    rootTotal := 100
    rootUsed := 40
    rootFree := 60
    rootPercent := .finite 40
    counters := some ⟨9, 8, 7, 6, 5, 4, 3, 2⟩
    connections := none
    processes := [some ⟨0, some "kernel_task", none, none⟩, none,
      some ⟨7, some "", some (.finite 5), some (.finite 150)⟩,
      some ⟨8, some "db", some (.finite 90), some .nan⟩] }

theorem sample_collected_rough : ∃ sample,
    collectSample roughHost (spooledSample (.finite 1)).observedAt = some sample ∧
      sample.valid = true ∧ sample.processCount = 4 ∧
      sample.topProcesses.map (fun item => (item.pid, item.name)) = [(8, "db"), (7, "unknown")] ∧
      sample.network.udpSockets = 0 := by
  have hsome : (collectSample roughHost (spooledSample (.finite 1)).observedAt).isSome = true := by
    decide +kernel
  obtain ⟨sample, hsample⟩ := Option.isSome_iff_exists.mp hsome
  obtain ⟨⟨hvalid, -⟩, ⟨hcount, -⟩, -, hudp⟩ := (sample_collected roughHost
    (spooledSample (.finite 1)).observedAt rfl).2 sample hsample
  have htop : (topProcesses roughHost.processes 10).2.map
      (fun item => (item.pid, item.name)) = [(8, "db"), (7, "unknown")] := by decide +kernel
  obtain ⟨network, -, -, -, -, rfl⟩ := collectSample_eq_some hsample
  exact ⟨_, hsample, hvalid, hcount, htop, hudp⟩

end FleetPulse
