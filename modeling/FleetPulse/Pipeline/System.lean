import FleetPulse.Lib.Interleaving
import FleetPulse.Worker.Main

/-! The pipeline as one interleaved program: any number of processes, each of which is, from one
    activity to the next, an API request that ingests a batch, a relay transaction, a worker or a
    request for the fleet state, over one PostgreSQL database and one Redis.

    A step is what happens between two awaits. A process can stop at any point (a crash, a request
    that fails, an error that escapes); a relay transaction that stops is rolled back, and until
    then it keeps its row locks. Clock readings, the ids that `uuid4()` draws and the entries that
    have been idle for long enough are arbitrary. -/

namespace FleetPulse
open Values

/-- The stores, and the row locks that open relay transactions hold. -/
structure Shared (ι : Type) extends Stores where
  locks : List (UUID × ι)

/-- The state after the migrations and `xgroup_create`. -/
def Shared.init (ι : Type) : Shared ι := ⟨⟨Database.empty, .empty, [], none⟩, []⟩

/-- What a worker asks Redis for when its queue is empty. -/
inductive Poll where
  | claim
  | read
  | measure
  deriving DecidableEq

/-- Where a process stands. -/
inductive Local where
  | idle
  -- ingest_batch
  | ingesting (now : Instant) (batch : TelemetryBatch) (correlationId : String)
  | answering (batch : TelemetryBatch) (response : IngestionResponse)
  -- publish_once: the rows that are still to be locked, then the rows still to be added
  | locking (candidates : List UUID) (rows : List OutboxEventRecord)
  | publishing (rows added : List OutboxEventRecord)
  -- the worker's loop
  | polling (next : Poll) (queue : List (ℕ × Fields))
  | handling (next : Poll) (queue : List (ℕ × Fields)) (id : ℕ) (fields : Fields) (h : Handling)
  -- list_fleet_state
  | lookingUp
  | found (views : List FleetStateView)
  | querying
  | caching (views : List FleetStateView)
  | returning (views : List FleetStateView)
  deriving DecidableEq

/-- What a step leaves in the run. -/
inductive Event where
  | received (now : Instant) (batch : TelemetryBatch) (correlationId : String)
  | ingested (batch : TelemetryBatch) (eventId : UUID) (response : IngestionResponse)
  | answered (batch : TelemetryBatch) (response : IngestionResponse)
  | selected (eventIds : List UUID)
  | locked (eventId : UUID)
  | skipped (eventId : UUID)
  | opened
  | added (eventId : UUID)
  | published (eventIds : List UUID)
  | rolledBack (eventIds : List UUID)
  | started
  | polled (ids : List ℕ)
  | measured (queuePending : ℕ)
  | taken (id : ℕ)
  | advanced (id : ℕ) (before after : Handling)
  | finished (id : ℕ)
  | requested
  | hit
  | counted
  | missed
  | loaded (views : List FleetStateView)
  | stored (views : List FleetStateView)
  | unstored
  | returned (views : List FleetStateView)
  | expired
  | stopped
  deriving DecidableEq

variable {ι : Type}

/-- `ingest_batch`: the clock is read, the transaction commits, the answer is sent. -/
inductive ApiStep : Shared ι → Local → Event → Shared ι → Local → Prop
  | receive (s now batch correlationId) :
      ApiStep s .idle (.received now batch correlationId) s (.ingesting now batch correlationId)
  | commit {s now batch correlationId createdAt eventId db response} :
      ingestBatch now createdAt eventId correlationId batch s.db = .ok (db, response) →
      ApiStep s (.ingesting now batch correlationId) (.ingested batch eventId response)
        { s with db := db } (.answering batch response)
  | answer (s batch response) :
      ApiStep s (.answering batch response) (.answered batch response) s .idle

section
variable [DecidableEq ι]

/-- The locks that are left when the transaction of `i` ends. -/
def release (i : ι) (s : Shared ι) : List (UUID × ι) := s.locks.filter (fun lock => lock.2 ≠ i)

/-- `publish_once`: a snapshot of the unpublished rows in order, a lock on each whose current
    version is still unpublished (a row that another transaction has locked is skipped), one `xadd`
    for each locked row, and the commit. -/
inductive RelayStep (i : ι) : Shared ι → Local → Event → Shared ι → Local → Prop
  | select {s events} : OrderedByCreation (unpublished s.db) events →
      RelayStep i s .idle (.selected (events.map OutboxEventRecord.eventId)) s
        (.locking (events.map OutboxEventRecord.eventId) [])
  | lock {s eventId candidates rows row} :
      rows.length < publishLimit → eventId ∉ s.locks.map Prod.fst →
      s.db.outboxEvents.find? eventId = some row → row.publishedAt = none →
      RelayStep i s (.locking (eventId :: candidates) rows) (.locked eventId)
        { s with locks := (eventId, i) :: s.locks } (.locking candidates (rows ++ [row]))
  | skip {s eventId candidates rows} : rows.length < publishLimit →
      eventId ∈ s.locks.map Prod.fst ∨
        (∀ row, s.db.outboxEvents.find? eventId = some row → row.publishedAt ≠ none) →
      RelayStep i s (.locking (eventId :: candidates) rows) (.skipped eventId)
        s (.locking candidates rows)
  | opened {s candidates rows} : candidates = [] ∨ rows.length = publishLimit →
      RelayStep i s (.locking candidates rows) .opened s (.publishing rows [])
  | add (s row rows added now) :
      RelayStep i s (.publishing (row :: rows) added) (.added row.eventId)
        { s with stream := s.stream.add (publishFields row) }
        (.publishing rows (added ++ [markPublished now row]))
  | commit (s added) :
      RelayStep i s (.publishing [] added) (.published (added.map OutboxEventRecord.eventId))
        { s with db := { s.db with outboxEvents := commitPublished added s.db.outboxEvents },
                 locks := release i s } .idle
  | rollbackLocking (s candidates rows) :
      RelayStep i s (.locking candidates rows) (.rolledBack []) { s with locks := release i s } .idle
  | rollback (s rows added) :
      RelayStep i s (.publishing rows added)
        (.rolledBack (added.map OutboxEventRecord.eventId)) { s with locks := release i s } .idle

end

/-- `count=10`. -/
def pollCount : ℕ := 10

/-- The entries of the ids that a poll hands out. -/
def delivered (stream : ConsumerGroup Fields) (ids : List ℕ) : List (ℕ × Fields) :=
  ids.filterMap (fun id => stream.entries[id]?.map (fun fields => (id, fields)))

/-- `int(group["pending"]) + int(group["lag"])`, the value of the gauge `QUEUE_PENDING`. -/
def queuePending (s : Stores) : ℕ := s.stream.pending.length + s.stream.lag

/-- The loop of the worker: reclaim, handle each entry, read, handle each entry, set the gauge. -/
inductive WorkerStep (libs : Libraries) (settings : WorkerSettings) :
    Shared ι → Local → Event → Shared ι → Local → Prop
  | start (s) : WorkerStep libs settings s .idle .started s (.polling .claim [])
  | claim (s idle) : WorkerStep libs settings s (.polling .claim [])
      (.polled (s.stream.claimIds idle pollCount))
      { s with stream := s.stream.autoclaim idle pollCount }
      (.polling .read (delivered s.stream (s.stream.claimIds idle pollCount)))
  | read (s) : WorkerStep libs settings s (.polling .read [])
      (.polled (s.stream.newIds pollCount))
      { s with stream := s.stream.readGroup pollCount }
      (.polling .measure (delivered s.stream (s.stream.newIds pollCount)))
  | measure (s) : WorkerStep libs settings s (.polling .measure [])
      (.measured (queuePending s.toStores)) s (.polling .claim [])
  | take (s next id fields queue) :
      WorkerStep libs settings s (.polling next ((id, fields) :: queue)) (.taken id) s
        (.handling next queue id fields .received)
  | advance {s next queue id fields h h' stores} : h ≠ .returned →
      advance libs settings id fields h s.toStores = .ok (h', stores) →
      WorkerStep libs settings s (.handling next queue id fields h) (.advanced id h h')
        { s with toStores := stores } (.handling next queue id fields h')
  | finish (s next queue id fields) :
      WorkerStep libs settings s (.handling next queue id fields .returned) (.finished id) s
        (.polling next queue)

/-- `list_fleet_state`: look in the cache, else read the table and fill the cache. Redis may fail at
    each of its calls, and with the cache off it is never asked. -/
inductive ReaderStep (libs : Libraries) : Shared ι → Local → Event → Shared ι → Local → Prop
  | request (s) : ReaderStep libs s .idle .requested s .lookingUp
  | hit {s views} : s.cache = some views → ReaderStep libs s .lookingUp .hit s (.found views)
  | miss (s) : ReaderStep libs s .lookingUp .missed s .querying
  -- the call that counts the hit comes before the answer
  | answerHit (s views) : ReaderStep libs s (.found views) .counted s (.returning views)
  | bypass (s views) : ReaderStep libs s (.found views) .missed s .querying
  | query (s) : ReaderStep libs s .querying (.loaded (selectFleetState libs s.db)) s
      (.caching (selectFleetState libs s.db))
  | store (s views) : ReaderStep libs s (.caching views) (.stored views)
      { s with cache := some views } (.returning views)
  | unstored (s views) : ReaderStep libs s (.caching views) .unstored s (.returning views)
  | answer (s views) : ReaderStep libs s (.returning views) (.returned views) s .idle

/-- The process has an open relay transaction. -/
def Local.inTransaction : Local → Bool
  | .locking .. | .publishing .. => true
  | _ => false

/-- One step of a process. -/
inductive Step [DecidableEq ι] (libs : Libraries) (settings : ι → WorkerSettings) :
    ι → Shared ι → Local → Event → Shared ι → Local → Prop
  | api {i s l e s' l'} : ApiStep s l e s' l' → Step libs settings i s l e s' l'
  | relay {i s l e s' l'} : RelayStep i s l e s' l' → Step libs settings i s l e s' l'
  | worker {i s l e s' l'} : WorkerStep libs (settings i) s l e s' l' →
      Step libs settings i s l e s' l'
  | reader {i s l e s' l'} : ReaderStep libs s l e s' l' → Step libs settings i s l e s' l'
  | expire (i s l) : Step libs settings i s l .expired { s with cache := none } l
  | stop {i s l} : l.inTransaction = false → Step libs settings i s l .stopped s .idle

/-- The pipeline. -/
def pipeline [DecidableEq ι] (libs : Libraries) (settings : ι → WorkerSettings) :
    Interleaving.Program ι (Shared ι) Local Event where
  init := Shared.init ι
  start _ l := l = .idle
  step := Step libs settings

end FleetPulse
