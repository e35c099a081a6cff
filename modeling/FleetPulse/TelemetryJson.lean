import FleetPulse.Telemetry

/-! The JSON text of a batch: `model_dump_json()` and `model_validate_json()`.

    The text is represented by the document that it spells. Pydantic writes every value exactly but
    for a float that is not finite, which it writes as `null`; and it reads no float from `null`. So
    a batch comes back from its text exactly if all of its floats are finite (`validateJson_iff`). -/

namespace FleetPulse
open Values

mutual
/-- The document that the JSON text of a dump spells. -/
@[simp] def jsonDocument : Payload → Payload
  | .null => .null
  | .bool b => .bool b
  | .num (.int n) => .num (.int n)
  | .num (.float x) => if x.isFinite then .num (.float x) else .null
  | .str s => .str s
  | .arr xs => .arr (jsonItems xs)
  | .obj kvs => .obj (jsonMembers kvs)
@[simp] def jsonItems : List Payload → List Payload
  | [] => []
  | x :: xs => jsonDocument x :: jsonItems xs
@[simp] def jsonMembers : List (String × Payload) → List (String × Payload)
  | [] => []
  | (k, x) :: kvs => (k, jsonDocument x) :: jsonMembers kvs
end

/-- `batch.model_dump_json()`. -/
def TelemetryBatch.modelDumpJson (batch : TelemetryBatch) : Payload := jsonDocument batch.dump

theorem jsonItems_map {α : Type} (dump : α → Payload) : ∀ xs : List α,
    jsonItems (xs.map dump) = xs.map (fun x => jsonDocument (dump x))
  | [] => rfl
  | x :: xs => by rw [List.map_cons, jsonItems, jsonItems_map dump xs, List.map_cons]

@[simp] theorem jsonDocument_int (n : ℤ) : jsonDocument (intNum n) = intNum n := by
  rw [intNum, jsonDocument]

theorem jsonDocument_float {x : PyFloat} (h : x.isFinite = true) :
    jsonDocument (floatNum x) = floatNum x := by
  rw [floatNum, jsonDocument, if_pos h]

variable {libs : Libraries}

/-- A float that is read from its text is finite. -/
theorem isFinite_of_validateFloat {x y : PyFloat}
    (h : libs.validateFloat (jsonDocument (floatNum x)) = some y) : x.isFinite = true := by
  by_contra hx
  rw [floatNum, jsonDocument, if_neg hx, libs.validateFloat_null] at h
  cases h

/-! ### Finite numbers survive -/

theorem jsonDocument_process {p : ProcessTelemetry} (h : p.finite = true) :
    jsonDocument p.dump = p.dump := by
  simp only [ProcessTelemetry.finite, Bool.and_eq_true] at h
  simp [ProcessTelemetry.dump, jsonDocument, jsonMembers, jsonDocument_float h.1,
    jsonDocument_float h.2]

theorem jsonDocument_disk {d : DiskTelemetry} (h : d.finite = true) :
    jsonDocument d.dump = d.dump := by
  simp [DiskTelemetry.dump, jsonDocument, jsonMembers, jsonDocument_float h]

theorem jsonDocument_memory {m : MemoryTelemetry} (h : m.finite = true) :
    jsonDocument m.dump = m.dump := by
  simp [MemoryTelemetry.dump, jsonDocument, jsonMembers, jsonDocument_float h]

theorem jsonDocument_network (n : NetworkTelemetry) : jsonDocument n.dump = n.dump := by
  simp [NetworkTelemetry.dump, NetworkTelemetry.counters, jsonDocument, jsonMembers]

theorem jsonDocument_sample {s : TelemetrySample} (h : s.finite = true) :
    jsonDocument s.dump = s.dump := by
  simp only [TelemetrySample.finite, Bool.and_eq_true, List.all_eq_true] at h
  obtain ⟨⟨⟨⟨⟨⟨hcpu, h1⟩, h5⟩, h15⟩, hmemory⟩, hdisks⟩, hprocesses⟩ := h
  simp [TelemetrySample.dump, jsonDocument, jsonMembers, jsonItems_map, jsonDocument_float hcpu,
    jsonDocument_float h1, jsonDocument_float h5, jsonDocument_float h15,
    jsonDocument_memory hmemory, jsonDocument_network,
    List.map_congr_left (fun d hd => jsonDocument_disk (hdisks d hd)),
    List.map_congr_left (fun p hp => jsonDocument_process (hprocesses p hp))]

theorem TelemetryBatch.modelDumpJson_of_finite {b : TelemetryBatch} (h : b.finite = true) :
    b.modelDumpJson = b.dump := by
  simp only [TelemetryBatch.finite, List.all_eq_true] at h
  simp [TelemetryBatch.modelDumpJson, TelemetryBatch.dump, jsonDocument, jsonMembers,
    jsonItems_map, List.map_congr_left (fun s hs => jsonDocument_sample (h s hs))]

/-! ### Only finite numbers survive -/

/-- The value of a required field after writing. -/
theorem required_jsonMembers {α : Type} (validate : Payload → Option α) (key : String) :
    ∀ kvs : List (String × Payload), required (jsonMembers kvs) key validate =
      (kvs.lookup key).bind (fun x => validate (jsonDocument x))
  | [] => rfl
  | (k, x) :: kvs => by
      have ih := required_jsonMembers validate key kvs
      rw [required] at ih ⊢
      rw [jsonMembers, List.lookup_cons, List.lookup_cons]
      by_cases h : key = k
      · simp [h]
      · simpa [beq_false_of_ne h] using ih

theorem ProcessTelemetry.fields_of_validate {kvs : List (String × Payload)} {q : ProcessTelemetry}
    (h : ProcessTelemetry.validate libs (.obj kvs) = some q) :
    (∃ y, required kvs "cpu_percent" libs.validateFloat = some y) ∧
      ∃ y, required kvs "memory_percent" libs.validateFloat = some y := by
  simp only [ProcessTelemetry.validate, Option.ite_none_right_eq_some, Option.bind_eq_bind,
    Option.bind_eq_some_iff] at h
  obtain ⟨-, _, -, _, -, cpu, hcpu, memory, hmemory, -⟩ := h
  exact ⟨⟨cpu, hcpu⟩, memory, hmemory⟩

theorem finite_of_validate_process {p q : ProcessTelemetry}
    (h : ProcessTelemetry.validate libs (jsonDocument p.dump) = some q) : p.finite = true := by
  rw [ProcessTelemetry.dump, jsonDocument] at h
  obtain ⟨⟨_, hcpu⟩, _, hmemory⟩ := ProcessTelemetry.fields_of_validate h
  rw [required_jsonMembers] at hcpu hmemory
  simp [ProcessTelemetry.finite, isFinite_of_validateFloat hcpu, isFinite_of_validateFloat hmemory]

theorem DiskTelemetry.fields_of_validate {kvs : List (String × Payload)} {e : DiskTelemetry}
    (h : DiskTelemetry.validate libs (.obj kvs) = some e) :
    ∃ y, required kvs "used_percent" libs.validateFloat = some y := by
  simp only [DiskTelemetry.validate, Option.ite_none_right_eq_some, Option.bind_eq_bind,
    Option.bind_eq_some_iff] at h
  obtain ⟨-, _, -, _, -, _, -, _, -, percent, hpercent, -⟩ := h
  exact ⟨percent, hpercent⟩

theorem finite_of_validate_disk {d e : DiskTelemetry}
    (h : DiskTelemetry.validate libs (jsonDocument d.dump) = some e) : d.finite = true := by
  rw [DiskTelemetry.dump, jsonDocument] at h
  obtain ⟨_, hpercent⟩ := DiskTelemetry.fields_of_validate h
  rw [required_jsonMembers] at hpercent
  exact isFinite_of_validateFloat hpercent

theorem MemoryTelemetry.fields_of_validate {kvs : List (String × Payload)} {n : MemoryTelemetry}
    (h : MemoryTelemetry.validate libs (.obj kvs) = some n) :
    ∃ y, required kvs "used_percent" libs.validateFloat = some y := by
  simp only [MemoryTelemetry.validate, Option.ite_none_right_eq_some, Option.bind_eq_bind,
    Option.bind_eq_some_iff] at h
  obtain ⟨-, _, -, _, -, _, -, percent, hpercent, -⟩ := h
  exact ⟨percent, hpercent⟩

theorem finite_of_validate_memory {m n : MemoryTelemetry}
    (h : MemoryTelemetry.validate libs (jsonDocument m.dump) = some n) : m.finite = true := by
  rw [MemoryTelemetry.dump, jsonDocument] at h
  obtain ⟨_, hpercent⟩ := MemoryTelemetry.fields_of_validate h
  rw [required_jsonMembers] at hpercent
  exact isFinite_of_validateFloat hpercent

/-- Every item of a list that validates validates. -/
theorem validate_of_validateList {α : Type} {validate : Payload → Option α} {dump : α → Payload} :
    ∀ {xs ys : List α}, validateList validate (.arr (jsonItems (xs.map dump))) = some ys →
      ∀ x ∈ xs, ∃ y, validate (jsonDocument (dump x)) = some y
  | [], _, _, _, hx => absurd hx List.not_mem_nil
  | x :: xs, ys, h, a, ha => by
      simp only [validateList, List.map_cons, jsonItems, List.mapM_cons, Option.bind_eq_bind,
        Option.bind_eq_some_iff] at h
      obtain ⟨y, hy, zs, hzs, -⟩ := h
      rcases List.mem_cons.mp ha with rfl | ha
      · exact ⟨y, hy⟩
      · exact validate_of_validateList hzs a ha

/-- The fields of a sample that hold floats. -/
theorem TelemetrySample.fields_of_validate {kvs : List (String × Payload)} {t : TelemetrySample}
    (h : TelemetrySample.validate libs (.obj kvs) = some t) :
    (∀ key ∈ ["cpu_percent", "load_1m", "load_5m", "load_15m"],
      ∃ y, required kvs key libs.validateFloat = some y) ∧
    (∃ y, required kvs "memory" (MemoryTelemetry.validate libs) = some y) ∧
    (∃ y, required kvs "disks" (validateList (DiskTelemetry.validate libs)) = some y) ∧
    ∃ y, required kvs "top_processes" (validateList (ProcessTelemetry.validate libs)) = some y := by
  simp only [TelemetrySample.validate, Option.ite_none_right_eq_some, Option.bind_eq_bind,
    Option.bind_eq_some_iff] at h
  obtain ⟨-, _, -, cpu, hcpu, l1, h1, l5, h5, l15, h15, memory, hmemory, disks, hdisks, _, -, _, -,
    processes, hprocesses, -⟩ := h
  refine ⟨?_, ⟨memory, hmemory⟩, ⟨disks, hdisks⟩, processes, hprocesses⟩
  simp [hcpu, h1, h5, h15]

theorem finite_of_validate_sample {s t : TelemetrySample}
    (h : TelemetrySample.validate libs (jsonDocument s.dump) = some t) : s.finite = true := by
  rw [TelemetrySample.dump, jsonDocument] at h
  obtain ⟨hfloats, ⟨_, hmemory⟩, ⟨_, hdisks⟩, _, hprocesses⟩ :=
    TelemetrySample.fields_of_validate h
  obtain ⟨_, hcpu⟩ := hfloats "cpu_percent" (by simp)
  obtain ⟨_, h1⟩ := hfloats "load_1m" (by simp)
  obtain ⟨_, h5⟩ := hfloats "load_5m" (by simp)
  obtain ⟨_, h15⟩ := hfloats "load_15m" (by simp)
  rw [required_jsonMembers] at hcpu h1 h5 h15 hmemory hdisks hprocesses
  simp only [TelemetrySample.finite, Bool.and_eq_true, List.all_eq_true]
  refine ⟨⟨⟨⟨⟨⟨isFinite_of_validateFloat hcpu, isFinite_of_validateFloat h1⟩,
    isFinite_of_validateFloat h5⟩, isFinite_of_validateFloat h15⟩,
    finite_of_validate_memory hmemory⟩, fun d hd => ?_⟩, fun p hp => ?_⟩
  · obtain ⟨_, hv⟩ := validate_of_validateList hdisks d hd
    exact finite_of_validate_disk hv
  · obtain ⟨_, hv⟩ := validate_of_validateList hprocesses p hp
    exact finite_of_validate_process hv

theorem TelemetryBatch.fields_of_validate {kvs : List (String × Payload)} {c : TelemetryBatch}
    (h : TelemetryBatch.validate libs (.obj kvs) = some c) :
    ∃ y, required kvs "samples" (validateList (TelemetrySample.validate libs)) = some y := by
  simp only [TelemetryBatch.validate, Option.ite_none_right_eq_some, Option.bind_eq_bind,
    Option.bind_eq_some_iff] at h
  obtain ⟨-, _, -, _, -, _, -, samples, hsamples, -⟩ := h
  exact ⟨samples, hsamples⟩

theorem finite_of_validate_batch {b c : TelemetryBatch}
    (h : TelemetryBatch.validate libs b.modelDumpJson = some c) : b.finite = true := by
  rw [TelemetryBatch.modelDumpJson, TelemetryBatch.dump, jsonDocument] at h
  obtain ⟨_, hsamples⟩ := TelemetryBatch.fields_of_validate h
  rw [required_jsonMembers] at hsamples
  simp only [TelemetryBatch.finite, List.all_eq_true]
  intro s hs
  obtain ⟨_, hv⟩ := validate_of_validateList hsamples s hs
  exact finite_of_validate_sample hv

/-- CODEC: a batch comes back from its text if all of its floats are finite; otherwise its text does
    not validate. -/
theorem TelemetryBatch.validate_modelDumpJson (libs : Libraries) (b : TelemetryBatch) :
    TelemetryBatch.validate libs b.modelDumpJson = if b.finite then some b else none := by
  cases hf : b.finite with
  | true =>
    rw [modelDumpJson_of_finite hf, TelemetryBatch.validate_dump libs hf]
    rfl
  | false =>
    cases hv : TelemetryBatch.validate libs b.modelDumpJson with
    | none => rfl
    | some c => rw [finite_of_validate_batch hv] at hf; cases hf

end FleetPulse
