import FleetPulse.Lib.JsonScalars

/-! `JsonFormatter`: one JSON object for each log record, on a line of its own.

        {"timestamp":…,"level":…,"logger":…,"message":…,"correlation_id":…   always
         ,"exception":…                                                      with exc_info
         ,"event":…,"batch_id":…,"agent_id":…,"status":…,…}                  those that are given

    The message, the traceback and the correlation id, which may come from a request header, are
    arbitrary text. What is read of the stream line by line is what was logged. -/

namespace FleetPulse

/-- What a caller gives along with a record. A finite float is written by its `repr`; what `json` does
    not know is written as its `str`. -/
inductive LogValue where
  | str (s : String)
  | int (z : ℤ)
  | float (repr : Json.Numeral)
  | other (text : String)

/-- A `LogRecord`: what `format` reads of it. -/
structure LogRecord where
  levelname : String
  name : String
  message : String
  excText : Option String
  event : Option LogValue
  batchId : Option LogValue
  agentId : Option LogValue
  status : Option LogValue
  durationMs : Option LogValue
  attempt : Option LogValue

/-- `(key, getattr(record, key, None))`. -/
def LogRecord.extra (record : LogRecord) : List (String × Option LogValue) :=
  [("event", record.event), ("batch_id", record.batchId), ("agent_id", record.agentId),
    ("status", record.status), ("duration_ms", record.durationMs), ("attempt", record.attempt)]

/-- The value in JSON, or the `ValueError` of an integer with too many digits. -/
def LogValue.scalar : LogValue → Option Json.Scalar
  | .str s => some (.str s)
  | .int z => (Json.Numeral.ofInt z).map .num
  | .float repr => some (.num repr)
  | .other text => some (.str text)

namespace JsonFormatter

/-- `payload`, with the text of the time. -/
def payload (timestamp correlationId : String) (record : LogRecord) : List (String × LogValue) :=
  [("timestamp", .str timestamp), ("level", .str record.levelname), ("logger", .str record.name),
    ("message", .str record.message), ("correlation_id", .str correlationId)] ++
  (record.excText.map (fun text => ("exception", LogValue.str text))).toList ++
  record.extra.filterMap (fun kv => kv.2.map (fun value => (kv.1, value)))

/-- The members of the object. -/
def members (timestamp correlationId : String) (record : LogRecord) :
    Option (List (String × Json.Scalar)) :=
  (payload timestamp correlationId record).mapM
    (fun kv => kv.2.scalar.map (fun value => (kv.1, value)))

def format (timestamp correlationId : String) (record : LogRecord) : Option String :=
  (members timestamp correlationId record).map Json.dumpsScalars

end JsonFormatter

/-- A call of a logger: the time as text, the correlation id of the context, and the record. -/
structure LogCall where
  timestamp : String
  correlationId : String
  record : LogRecord

/-- What the handler writes for a call: the line and its terminator. -/
def LogCall.emit (call : LogCall) : Option (List Char) :=
  (JsonFormatter.format call.timestamp call.correlationId call.record).map
    (fun line => line.toList ++ ['\n'])

/-- The stream after the calls, when no formatting raises. -/
def logStream (calls : List LogCall) : Option (List Char) :=
  (calls.mapM LogCall.emit).map List.flatten

/-- The lines of a text that ends with a line break. -/
def textLines (text : List Char) : List String := ((text.splitOn '\n').dropLast).map String.ofList

/-- The value as it is read back. -/
def LogValue.read : LogValue → Json.Text
  | .str s | .other s => .str (Json.codePoints s)
  | .int z => .num ((if z < 0 then ['-'] else []) ++ Nat.toDigits 10 z.natAbs)
  | .float repr => .num repr.text

/-- The object of a call as it is read back. -/
def LogCall.object (call : LogCall) : Json.Text :=
  .obj ((JsonFormatter.payload call.timestamp call.correlationId call.record).map
    (fun kv => (Json.codePoints kv.1, kv.2.read)))

/-! ### One record -/

theorem LogValue.read_scalar {value : LogValue} {scalar : Json.Scalar}
    (h : value.scalar = some scalar) : scalar.read = value.read := by
  cases value with
  | str s | other s | float repr =>
    cases h
    rfl
  | int z =>
    obtain ⟨n, hn, rfl⟩ := Option.map_eq_some_iff.mp h
    unfold Json.Numeral.ofInt at hn
    split at hn
    · cases hn
      simp [Json.Scalar.read, LogValue.read, Json.Numeral.text, Json.Numeral.signText,
        Json.Numeral.fractionText, Json.Numeral.exponentText]
    · cases hn

/-- Leaving out the values that are not given leaves out their keys. -/
theorem keys_given_sublist (kvs : List (String × Option LogValue)) :
    ((kvs.filterMap (fun kv => kv.2.map (fun value => (kv.1, value)))).map Prod.fst).Sublist
      (kvs.map Prod.fst) := by
  induction kvs with
  | nil => exact .slnil
  | cons kv kvs ih =>
    obtain ⟨key, value⟩ := kv
    cases value with
    | none => exact ih.cons key
    | some value => exact ih.cons_cons key

/-- No key comes twice. -/
theorem JsonFormatter.nodup_payload (timestamp correlationId : String) (record : LogRecord) :
    ((payload timestamp correlationId record).map Prod.fst).Nodup := by
  have hexception : ((record.excText.map (fun text => ("exception", LogValue.str text))).toList.map
      Prod.fst).Sublist ["exception"] := by
    cases record.excText with
    | none => exact List.nil_sublist _
    | some text => exact List.Sublist.refl _
  have hkeys : ((payload timestamp correlationId record).map Prod.fst).Sublist
      (["timestamp", "level", "logger", "message", "correlation_id"] ++ ["exception"] ++
        ["event", "batch_id", "agent_id", "status", "duration_ms", "attempt"]) := by
    rw [payload, List.map_append, List.map_append]
    exact ((List.Sublist.refl _).append hexception).append (keys_given_sublist record.extra)
  exact hkeys.nodup (by decide)

theorem keys_of_mapM {kvs : List (String × LogValue)} {scalars : List (String × Json.Scalar)}
    (h : kvs.mapM (fun kv => kv.2.scalar.map (fun value => (kv.1, value))) = some scalars) :
    scalars.map Prod.fst = kvs.map Prod.fst ∧
      Json.scalarsText scalars = kvs.map (fun kv => (Json.codePoints kv.1, kv.2.read)) := by
  induction kvs generalizing scalars with
  | nil =>
    cases h
    exact ⟨rfl, rfl⟩
  | cons kv kvs ih =>
    rw [List.mapM_cons] at h
    obtain ⟨member, hmember, h⟩ := Option.bind_eq_some_iff.mp h
    obtain ⟨rest, hrest, h⟩ := Option.bind_eq_some_iff.mp h
    cases h
    obtain ⟨scalar, hscalar, rfl⟩ := Option.map_eq_some_iff.mp hmember
    obtain ⟨hkeys, hread⟩ := ih hrest
    simp only [Json.scalarsText] at hread
    exact ⟨by simp [hkeys], by simp [Json.scalarsText, hread, LogValue.read_scalar hscalar]⟩

/-- What `format` makes of a record is one line, and reads back as the object. -/
theorem LogCall.line {call : LogCall} {text : List Char} (h : call.emit = some text) :
    ∃ line : List Char, text = line ++ ['\n'] ∧ '\n' ∉ line ∧
      (∀ c ∈ line, Json.isPrintable c = true) ∧
      ∀ limit, Json.loads limit (String.ofList line) = .ok call.object := by
  obtain ⟨line, hline, rfl⟩ := Option.map_eq_some_iff.mp h
  obtain ⟨members, hmembers, rfl⟩ := Option.map_eq_some_iff.mp hline
  obtain ⟨hkeys, hread⟩ := keys_of_mapM hmembers
  have hprintable := Json.printable_dumpsScalars members
  refine ⟨_, rfl, fun hbreak => ?_, hprintable, fun limit => ?_⟩
  · exact absurd (hprintable _ hbreak) (by decide)
  · rw [String.ofList_toList, Json.loads_dumpsScalars, hread]
    · rfl
    · rw [hkeys]
      exact JsonFormatter.nodup_payload ..

/-- An integer that has too many digits to be written. -/
def LogValue.TooLong (value : LogValue) : Prop :=
  ∃ z, value = .int z ∧ Json.intMaxStrDigits < (Nat.toDigits 10 z.natAbs).length

theorem LogValue.scalar_eq_none {value : LogValue} : value.scalar = none ↔ value.TooLong := by
  cases value with
  | str | float | other => simp [scalar, TooLong]
  | int z => simp [scalar, TooLong, Json.Numeral.ofInt]

theorem mapM_eq_none {α β : Type} {f : α → Option β} {l : List α} :
    l.mapM f = none ↔ ∃ a ∈ l, f a = none := by
  induction l with
  | nil => simp
  | cons a l ih =>
    rw [List.mapM_cons]
    cases ha : f a with
    | none => simp [ha]
    | some b =>
      cases hl : l.mapM f with
      | none => simpa [ha, hl] using ih.mp hl
      | some bs => simpa [ha, hl] using ih.not.mp (by simp [hl])

/-- The only values that make `format` raise. -/
theorem LogCall.emit_eq_none {call : LogCall} : call.emit = none ↔
    ∃ kv ∈ call.record.extra, ∃ value, kv.2 = some value ∧ value.TooLong := by
  have hshort : ∀ s : String, ¬ (LogValue.str s).TooLong := fun s => by simp [LogValue.TooLong]
  rw [LogCall.emit, JsonFormatter.format, JsonFormatter.members, Option.map_map,
    Option.map_eq_none_iff, mapM_eq_none]
  simp only [Option.map_eq_none_iff, LogValue.scalar_eq_none, JsonFormatter.payload]
  constructor
  · rintro ⟨kv, hkv, hlong⟩
    rcases List.mem_append.mp hkv with hkv | hkv
    · exfalso
      rcases List.mem_append.mp hkv with hkv | hkv
      · simp only [List.mem_cons, List.not_mem_nil, or_false] at hkv
        rcases hkv with rfl | rfl | rfl | rfl | rfl <;> exact hshort _ hlong
      · obtain ⟨text, -, rfl⟩ := Option.map_eq_some_iff.mp (Option.mem_toList.mp hkv)
        exact hshort _ hlong
    · obtain ⟨given, hgiven, hvalue⟩ := List.mem_filterMap.mp hkv
      obtain ⟨value, heq, rfl⟩ := Option.map_eq_some_iff.mp hvalue
      exact ⟨given, hgiven, value, heq, hlong⟩
  · rintro ⟨given, hgiven, value, heq, hlong⟩
    refine ⟨(given.1, value), List.mem_append_right _ (List.mem_filterMap.mpr ⟨given, hgiven, ?_⟩),
      hlong⟩
    rw [heq]
    rfl

/-! ### The stream -/

theorem textLines_cons {line rest : List Char} (h : '\n' ∉ line) :
    textLines (line ++ '\n' :: rest) = String.ofList line :: textLines rest := by
  rw [textLines, List.splitOn_append_cons_self_of_not_mem h,
    List.dropLast_cons_of_ne_nil (List.splitOn_ne_nil _ _), List.map_cons]
  rfl

/-- Formatting raises on no text: only on an integer that is too long to be written. -/
theorem logStream_eq_none {calls : List LogCall} : logStream calls = none ↔
    ∃ call ∈ calls, ∃ kv ∈ call.record.extra, ∃ value, kv.2 = some value ∧ value.TooLong := by
  rw [logStream, Option.map_eq_none_iff, mapM_eq_none]
  simp only [LogCall.emit_eq_none]

/-- The lines of the stream are the objects of the calls, in printable characters. -/
theorem textLines_logStream (limit : ℕ) {calls : List LogCall} {text : List Char}
    (h : logStream calls = some text) :
    (textLines text).map (Json.loads limit) = calls.map (fun call => .ok call.object) ∧
    ∀ c ∈ text, c = '\n' ∨ Json.isPrintable c = true := by
  obtain ⟨lines, hlines, rfl⟩ := Option.map_eq_some_iff.mp h
  clear h
  induction calls generalizing lines with
  | nil =>
    cases hlines
    exact ⟨rfl, by simp⟩
  | cons call calls ih =>
    rw [List.mapM_cons] at hlines
    obtain ⟨first, hfirst, hlines⟩ := Option.bind_eq_some_iff.mp hlines
    obtain ⟨rest, hrest, hlines⟩ := Option.bind_eq_some_iff.mp hlines
    cases hlines
    obtain ⟨line, rfl, hbreak, hprintable, hloads⟩ := call.line hfirst
    obtain ⟨hread, hall⟩ := ih rest hrest
    rw [List.flatten_cons, List.append_assoc, List.singleton_append]
    refine ⟨?_, fun c hc => ?_⟩
    · rw [textLines_cons hbreak, List.map_cons, List.map_cons, hread, hloads]
    · rcases List.mem_append.mp hc with hc | hc
      · exact .inr (hprintable c hc)
      · rcases List.mem_cons.mp hc with rfl | hc
        · exact .inl rfl
        · exact hall c hc

/-- LOG STREAM: whatever the messages, tracebacks and correlation ids contain, nothing is raised but
    for an integer that is too long; and then the stream has one line for each call, with printable
    characters only, and each line reads back as the object of its call. -/
theorem log_stream_read (limit : ℕ) (calls : List LogCall) :
    (logStream calls = none ↔ ∃ call ∈ calls, ∃ kv ∈ call.record.extra, ∃ value,
      kv.2 = some value ∧ value.TooLong) ∧
    ∀ text, logStream calls = some text →
      (textLines text).map (Json.loads limit) = calls.map (fun call => .ok call.object) ∧
      ∀ c ∈ text, c = '\n' ∨ Json.isPrintable c = true :=
  ⟨logStream_eq_none, fun _ h => textLines_logStream limit h⟩

/-- A message that tries to pass for another record. -/
def forgingCall : LogCall where
  timestamp := "2026-07-17T09:00:10+00:00"
  correlationId := "-"
  record := {
    levelname := "INFO"
    name := "fleetpulse.api.access"
    message := "done\n\x7b\"level\":\"ERROR\"\x7d"
    excText := none
    event := some (.str "request_completed")
    batchId := none
    agentId := none
    status := some (.int 200)
    durationMs := none
    attempt := none }

theorem log_stream_read_forging : ∃ text, logStream [forgingCall] = some text ∧
    (textLines text).map (Json.loads 0) = [.ok forgingCall.object] := by
  have hstream : (logStream [forgingCall]).isSome = true := by decide +kernel
  obtain ⟨text, htext⟩ := Option.isSome_iff_exists.mp hstream
  exact ⟨text, htext, ((log_stream_read 0 [forgingCall]).2 text htext).1⟩

end FleetPulse
