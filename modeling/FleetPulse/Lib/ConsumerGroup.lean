import Mathlib.Data.List.Basic
import Mathlib.Tactic

/-! An append-only stream with one consumer group, as Redis keeps it.

    An entry is named by its place in the stream. The group remembers how far it has delivered and,
    for every entry that is delivered and not yet acknowledged, how often it was delivered (the
    pending entries list). New entries are handed out once by `readGroup`; `autoclaim` hands out
    pending ones again; `ack` takes an entry off the pending list for good. -/

/-- The stream and its consumer group; `pending` lists the id and the delivery count. -/
structure ConsumerGroup (α : Type*) where
  entries : List α
  delivered : ℕ
  pending : List (ℕ × ℕ)
  delivered_le : delivered ≤ entries.length
  pending_lt : ∀ p ∈ pending, p.1 < delivered

namespace ConsumerGroup

variable {α : Type*}

/-- The empty stream with a group created at its beginning. -/
def empty : ConsumerGroup α := ⟨[], 0, [], le_rfl, by simp⟩

/-- The entry is delivered and not yet acknowledged. -/
def isPending (g : ConsumerGroup α) (id : ℕ) : Prop := id ∈ g.pending.map Prod.fst

instance (g : ConsumerGroup α) (id : ℕ) : Decidable (g.isPending id) := by
  unfold isPending; infer_instance

/-- The entry has been delivered and has left the pending list. -/
def Acked (g : ConsumerGroup α) (id : ℕ) : Prop := id < g.delivered ∧ ¬ g.isPending id

instance (g : ConsumerGroup α) (id : ℕ) : Decidable (g.Acked id) := by
  unfold Acked; infer_instance

/-- `XADD`. -/
def add (g : ConsumerGroup α) (a : α) : ConsumerGroup α where
  entries := g.entries ++ [a]
  delivered := g.delivered
  pending := g.pending
  delivered_le := by have := g.delivered_le; simp only [List.length_append]; omega
  pending_lt := g.pending_lt

/-- How far a read of at most `count` new entries gets. -/
def readTo (g : ConsumerGroup α) (count : ℕ) : ℕ := min (g.delivered + count) g.entries.length

/-- The ids that a read of at most `count` new entries hands out. -/
def newIds (g : ConsumerGroup α) (count : ℕ) : List ℕ :=
  (List.range (g.readTo count)).drop g.delivered

theorem mem_newIds {g : ConsumerGroup α} {count id : ℕ} :
    id ∈ g.newIds count ↔ g.delivered ≤ id ∧ id < g.readTo count := by
  rw [newIds, List.mem_drop_iff_getElem]
  simp only [List.length_range, List.getElem_range]
  constructor
  · rintro ⟨i, hi, rfl⟩; omega
  · rintro ⟨h1, h2⟩; exact ⟨id - g.delivered, by omega, by omega⟩

/-- The state after `XREADGROUP … COUNT count … >`: the new entries are pending, delivered once. -/
def readGroup (g : ConsumerGroup α) (count : ℕ) : ConsumerGroup α where
  entries := g.entries
  delivered := g.readTo count
  pending := g.pending ++ (g.newIds count).map (fun id => (id, 1))
  delivered_le := Nat.min_le_right _ _
  pending_lt := by
    intro p hp
    have hle : g.delivered ≤ g.readTo count := le_min (Nat.le_add_right _ _) g.delivered_le
    rcases List.mem_append.mp hp with h | h
    · exact lt_of_lt_of_le (g.pending_lt p h) hle
    · obtain ⟨id, hid, rfl⟩ := List.mem_map.mp h
      exact (mem_newIds.mp hid).2

/-- The pending ids that `XAUTOCLAIM` hands out again, of those that have been idle long enough. -/
def claimIds (g : ConsumerGroup α) (idle : ℕ → Bool) (count : ℕ) : List ℕ :=
  ((g.pending.map Prod.fst).filter idle).take count

/-- The state after `XAUTOCLAIM`: one delivery more for every claimed entry. -/
def autoclaim (g : ConsumerGroup α) (idle : ℕ → Bool) (count : ℕ) : ConsumerGroup α where
  entries := g.entries
  delivered := g.delivered
  pending := g.pending.map (fun p => if p.1 ∈ g.claimIds idle count then (p.1, p.2 + 1) else p)
  delivered_le := g.delivered_le
  pending_lt := by
    intro p hp
    obtain ⟨q, hq, rfl⟩ := List.mem_map.mp hp
    have := g.pending_lt q hq
    split <;> exact this

/-- `XACK`. -/
def ack (g : ConsumerGroup α) (id : ℕ) : ConsumerGroup α where
  entries := g.entries
  delivered := g.delivered
  pending := g.pending.filter (fun p => p.1 ≠ id)
  delivered_le := g.delivered_le
  pending_lt := fun p hp => g.pending_lt p (List.mem_of_mem_filter hp)

/-- `XPENDING` for one entry: its delivery count, if it is pending. -/
def timesDelivered (g : ConsumerGroup α) (id : ℕ) : Option ℕ := g.pending.lookup id

/-- The `lag` of `XINFO GROUPS`: the entries that are still to be delivered. -/
def lag (g : ConsumerGroup α) : ℕ := g.entries.length - g.delivered

@[simp] theorem isPending_add {g : ConsumerGroup α} {a : α} {id : ℕ} :
    (g.add a).isPending id ↔ g.isPending id := Iff.rfl

theorem isPending_autoclaim {g : ConsumerGroup α} {idle : ℕ → Bool} {n id : ℕ} :
    (g.autoclaim idle n).isPending id ↔ g.isPending id := by
  have hfst : (Prod.fst ∘ fun p : ℕ × ℕ => if p.1 ∈ g.claimIds idle n then (p.1, p.2 + 1) else p) =
      Prod.fst := by
    funext p; simp only [Function.comp]; split <;> rfl
  rw [isPending, isPending, autoclaim, List.map_map, hfst]

theorem isPending_readGroup {g : ConsumerGroup α} {n id : ℕ} :
    (g.readGroup n).isPending id ↔ g.isPending id ∨ id ∈ g.newIds n := by
  simp [isPending, readGroup, List.map_append]

theorem isPending_ack {g : ConsumerGroup α} {id id' : ℕ} :
    (g.ack id).isPending id' ↔ g.isPending id' ∧ id' ≠ id := by
  simp only [isPending, ack, List.mem_map, List.mem_filter]
  constructor
  · rintro ⟨p, ⟨hp, hne⟩, rfl⟩
    exact ⟨⟨p, hp, rfl⟩, by simpa using hne⟩
  · rintro ⟨⟨p, hp, rfl⟩, hne⟩
    exact ⟨p, ⟨hp, by simpa using hne⟩, rfl⟩

@[simp] theorem acked_add {g : ConsumerGroup α} {a : α} {id : ℕ} :
    (g.add a).Acked id ↔ g.Acked id := Iff.rfl

@[simp] theorem acked_autoclaim {g : ConsumerGroup α} {idle : ℕ → Bool} {n id : ℕ} :
    (g.autoclaim idle n).Acked id ↔ g.Acked id := by
  rw [Acked, Acked, isPending_autoclaim]; rfl

/-- A read delivers entries; it acknowledges none. -/
theorem acked_readGroup {g : ConsumerGroup α} {n id : ℕ} :
    (g.readGroup n).Acked id ↔ g.Acked id := by
  rw [Acked, Acked, isPending_readGroup, mem_newIds, not_or]
  have hle : g.delivered ≤ g.readTo n := le_min (Nat.le_add_right _ _) g.delivered_le
  change id < g.readTo n ∧ _ ↔ _
  constructor
  · rintro ⟨h1, h2, h3⟩; exact ⟨by omega, h2⟩
  · rintro ⟨h1, h2⟩; exact ⟨by omega, h2, by omega⟩

/-- Acknowledging an entry adds that entry to the acknowledged ones and no other. -/
theorem acked_ack {g : ConsumerGroup α} {id id' : ℕ} :
    (g.ack id).Acked id' ↔ g.Acked id' ∨ (id' = id ∧ id < g.delivered) := by
  rw [Acked, Acked, isPending_ack]
  change id' < g.delivered ∧ _ ↔ _
  by_cases h : id' = id
  · subst h; simp only [ne_eq, not_true_eq_false, and_false, not_false_eq_true, and_true, true_and]
    tauto
  · simp [h]

theorem lt_of_mem_claimIds {g : ConsumerGroup α} {idle : ℕ → Bool} {n id : ℕ}
    (h : id ∈ g.claimIds idle n) : id < g.delivered := by
  obtain ⟨p, hp, rfl⟩ := List.mem_map.mp (List.mem_of_mem_filter (List.mem_of_mem_take h))
  exact g.pending_lt p hp

/-! ### Delivery counts -/

/-- The entry has been delivered `n` times, or has been acknowledged. -/
def Due (g : ConsumerGroup α) (n id : ℕ) : Prop :=
  g.Acked id ∨ ∃ times, n ≤ times ∧ g.timesDelivered id = some times

theorem mem_pending_of_timesDelivered {g : ConsumerGroup α} {id times : ℕ}
    (h : g.timesDelivered id = some times) : (id, times) ∈ g.pending := by
  obtain ⟨l₁, l₂, hpending, -⟩ := List.lookup_eq_some_iff.mp h
  rw [hpending]
  exact List.mem_append_right _ (List.mem_cons_self ..)

theorem Due.delivered {g : ConsumerGroup α} {n id : ℕ} (h : g.Due n id) : id < g.delivered := by
  rcases h with h | ⟨times, -, h⟩
  · exact h.1
  · exact g.pending_lt _ (mem_pending_of_timesDelivered h)

theorem acked_congr {g g' : ConsumerGroup α} (hd : g'.delivered = g.delivered)
    (hp : g'.pending = g.pending) (id : ℕ) : g'.Acked id ↔ g.Acked id := by
  rw [Acked, Acked, isPending, isPending, hd, hp]

theorem due_congr {g g' : ConsumerGroup α} (hd : g'.delivered = g.delivered)
    (hp : g'.pending = g.pending) (n id : ℕ) : g'.Due n id ↔ g.Due n id := by
  rw [Due, Due, acked_congr hd hp, timesDelivered, timesDelivered, hp]

theorem lookup_map_snd (f : ℕ → ℕ → ℕ) (id : ℕ) : ∀ l : List (ℕ × ℕ),
    (l.map (fun p => (p.1, f p.1 p.2))).lookup id = (l.lookup id).map (f id)
  | [] => rfl
  | (id', n) :: l => by
      rw [List.map_cons, List.lookup_cons, List.lookup_cons, lookup_map_snd f id l]
      by_cases h : id = id'
      · subst h; simp
      · simp [beq_false_of_ne h]

theorem lookup_filter_ne {id id' : ℕ} (h : id' ≠ id) : ∀ l : List (ℕ × ℕ),
    (l.filter (fun p => p.1 ≠ id)).lookup id' = l.lookup id'
  | [] => rfl
  | (a, n) :: l => by
      have ih := lookup_filter_ne h l
      rw [List.filter_cons]
      by_cases ha : a = id
      · rw [if_neg (by simpa using ha), ih, List.lookup_cons, beq_false_of_ne (ha ▸ h)]
      · rw [if_pos (by simpa using ha), List.lookup_cons, List.lookup_cons, ih]

/-- A claim counts one delivery more for the entries it hands out. -/
theorem timesDelivered_autoclaim (g : ConsumerGroup α) (idle : ℕ → Bool) (count id : ℕ) :
    (g.autoclaim idle count).timesDelivered id = (g.timesDelivered id).map
      (fun times => if id ∈ g.claimIds idle count then times + 1 else times) := by
  rw [timesDelivered, timesDelivered, ← lookup_map_snd
    (fun id times => if id ∈ g.claimIds idle count then times + 1 else times)]
  congr 1
  refine List.map_congr_left (fun p _ => ?_)
  split <;> rfl

theorem due_autoclaim {g : ConsumerGroup α} {idle : ℕ → Bool} {count n id : ℕ}
    (h : g.Due n id) : (g.autoclaim idle count).Due n id := by
  refine h.imp acked_autoclaim.mpr (fun ⟨times, hle, ht⟩ => ?_)
  rw [timesDelivered_autoclaim, ht]
  refine ⟨if id ∈ g.claimIds idle count then times + 1 else times, ?_, rfl⟩
  split <;> omega

theorem due_readGroup {g : ConsumerGroup α} {count n id : ℕ} (h : g.Due n id) :
    (g.readGroup count).Due n id := by
  refine h.imp acked_readGroup.mpr (fun ⟨times, hle, ht⟩ => ⟨times, hle, ?_⟩)
  rw [timesDelivered] at ht ⊢
  rw [readGroup, List.lookup_append, ht]
  rfl

/-- To acknowledge an entry makes none less due. -/
theorem due_ack {g : ConsumerGroup α} {n id id' : ℕ} (h : g.Due n id') :
    (g.ack id).Due n id' := by
  by_cases hid : id' = id
  · subst hid
    exact Or.inl (acked_ack.mpr (Or.inr ⟨rfl, h.delivered⟩))
  · refine h.imp (fun h => acked_ack.mpr (Or.inl h)) (fun ⟨times, hle, ht⟩ => ⟨times, hle, ?_⟩)
    rw [← ht]
    exact lookup_filter_ne hid g.pending

/-! ### Counting what is left -/

variable {g : ConsumerGroup α}

/-- No entry is on the pending list twice. -/
def Distinct (g : ConsumerGroup α) : Prop := (g.pending.map Prod.fst).Nodup

theorem Distinct.readGroup (h : g.Distinct) (count : ℕ) : (g.readGroup count).Distinct := by
  have hnew : (g.newIds count).Nodup := List.nodup_range.sublist (List.drop_sublist ..)
  have hids : ((g.newIds count).map (fun id => (id, 1))).map Prod.fst = g.newIds count := by
    rw [List.map_map]
    exact List.map_id _
  rw [Distinct, ConsumerGroup.readGroup, List.map_append, hids]
  refine List.nodup_append.mpr ⟨h, hnew, ?_⟩
  -- what is pending was delivered before, what is new was not
  rintro id hold id' hid' rfl
  obtain ⟨p, hp, rfl⟩ := List.mem_map.mp hold
  have hbefore := g.pending_lt p hp
  have hafter := (mem_newIds.mp hid').1
  omega

theorem Distinct.autoclaim (h : g.Distinct) (idle : ℕ → Bool) (count : ℕ) :
    (g.autoclaim idle count).Distinct := by
  have hids : (g.autoclaim idle count).pending.map Prod.fst = g.pending.map Prod.fst := by
    rw [ConsumerGroup.autoclaim, List.map_map]
    refine List.map_congr_left (fun p _ => ?_)
    simp only [Function.comp_apply]
    split <;> rfl
  rw [Distinct, hids]
  exact h

theorem Distinct.ack (h : g.Distinct) (id : ℕ) : (g.ack id).Distinct :=
  h.sublist (List.filter_sublist.map Prod.fst)

/-- The pending entries and the lag are the entries that nobody has acknowledged. -/
theorem Distinct.pending_add_lag (h : g.Distinct) : g.pending.length + g.lag =
    ((Finset.range g.entries.length).filter (fun id => ¬ g.Acked id)).card := by
  have hsplit : (Finset.range g.entries.length).filter (fun id => ¬ g.Acked id) =
      (g.pending.map Prod.fst).toFinset ∪ Finset.Ico g.delivered g.entries.length := by
    ext id
    have hle := g.delivered_le
    have hpending : g.isPending id → id < g.delivered := by
      intro hid
      obtain ⟨p, hp, rfl⟩ := List.mem_map.mp hid
      exact g.pending_lt p hp
    simp only [Finset.mem_filter, Finset.mem_range, Finset.mem_union, List.mem_toFinset,
      Finset.mem_Ico, Acked, not_and, not_not]
    change _ ↔ g.isPending id ∨ _
    constructor
    · rintro ⟨hlt, hunacked⟩
      rcases Nat.lt_or_ge id g.delivered with hbefore | hafter
      · exact .inl (hunacked hbefore)
      · exact .inr ⟨hafter, hlt⟩
    · rintro (hid | ⟨hafter, hlt⟩)
      · exact ⟨lt_of_lt_of_le (hpending hid) hle, fun _ => hid⟩
      · exact ⟨hlt, fun hbefore => absurd hbefore (by omega)⟩
  have hdisjoint : Disjoint (g.pending.map Prod.fst).toFinset
      (Finset.Ico g.delivered g.entries.length) := by
    refine Finset.disjoint_left.mpr (fun id hid hlag => ?_)
    obtain ⟨p, hp, rfl⟩ := List.mem_map.mp (List.mem_toFinset.mp hid)
    have hbefore := g.pending_lt p hp
    have hafter := (Finset.mem_Ico.mp hlag).1
    omega
  rw [hsplit, Finset.card_union_of_disjoint hdisjoint, List.toFinset_card_of_nodup h,
    List.length_map, Nat.card_Ico, lag]

end ConsumerGroup
