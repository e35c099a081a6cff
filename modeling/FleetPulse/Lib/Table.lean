import Mathlib.Data.List.Basic
import Mathlib.Data.List.Nodup
import Mathlib.Tactic

/-! Relational tables with a unique key: the rows in the order of insertion, no two with one key.

    Uniqueness is a field, so a table that breaks it cannot be built: a plain insert fails on a
    conflict, `INSERT … ON CONFLICT DO NOTHING` reports whether it inserted, `ON CONFLICT DO UPDATE`
    changes the row in place, and an update must leave the key alone. -/

/-- The rows of a table with the unique key `key`. -/
structure Table {κ ρ : Type*} (key : ρ → κ) where
  rows : List ρ
  nodup : (rows.map key).Nodup

namespace Table

variable {κ ρ : Type*} {key : ρ → κ}

/-- The table without rows. -/
def empty : Table key := ⟨[], List.nodup_nil⟩

@[simp] theorem rows_empty : (empty : Table key).rows = [] := rfl

@[ext] theorem ext {t t' : Table key} (h : t.rows = t'.rows) : t = t' := by
  cases t; cases t'; cases h; rfl

/-- Two rows of a table with one key are one row. -/
theorem eq_of_key_eq (t : Table key) {r r' : ρ} (hr : r ∈ t.rows) (hr' : r' ∈ t.rows)
    (h : key r = key r') : r = r' := List.inj_on_of_nodup_map t.nodup hr hr' h

/-- The keys of the table. -/
def keys (t : Table key) : List κ := t.rows.map key

theorem mem_keys {t : Table key} {k : κ} : k ∈ t.keys ↔ ∃ r ∈ t.rows, key r = k := List.mem_map

theorem key_mem_keys {t : Table key} {r : ρ} (h : r ∈ t.rows) : key r ∈ t.keys :=
  List.mem_map_of_mem h

/-- Add a row whose key is new at the end. -/
def append (t : Table key) (r : ρ) (h : key r ∉ t.keys) : Table key :=
  ⟨t.rows ++ [r], by
    rw [List.map_append, List.map_singleton, List.nodup_append]
    refine ⟨t.nodup, List.nodup_singleton _, fun a ha b hb hab => h ?_⟩
    rw [List.mem_singleton] at hb
    exact hb ▸ hab ▸ ha⟩

/-- `UPDATE … SET f WHERE p`, for a change that leaves the key alone. -/
def updateWhere (t : Table key) (p : ρ → Bool) (f : ρ → ρ) (hf : ∀ r, key (f r) = key r) :
    Table key :=
  ⟨t.rows.map (fun r => if p r then f r else r), by
    have hkey : (key ∘ fun r => if p r then f r else r) = key := by
      funext r; simp only [Function.comp]; split <;> simp [hf]
    rw [List.map_map, hkey]; exact t.nodup⟩

@[simp] theorem rows_updateWhere (t : Table key) (p : ρ → Bool) (f : ρ → ρ)
    (hf : ∀ r, key (f r) = key r) :
    (t.updateWhere p f hf).rows = t.rows.map (fun r => if p r then f r else r) := rfl

@[simp] theorem keys_updateWhere (t : Table key) (p : ρ → Bool) (f : ρ → ρ)
    (hf : ∀ r, key (f r) = key r) : (t.updateWhere p f hf).keys = t.keys := by
  rw [keys, rows_updateWhere, List.map_map]
  exact List.map_congr_left (fun r _ => by simp only [Function.comp]; split <;> simp [hf])

/-- `DELETE … WHERE p`. -/
def deleteWhere (t : Table key) (p : ρ → Bool) : Table key :=
  ⟨t.rows.filter (fun r => !p r), t.nodup.sublist (List.filter_sublist.map key)⟩

@[simp] theorem rows_deleteWhere (t : Table key) (p : ρ → Bool) :
    (t.deleteWhere p).rows = t.rows.filter (fun r => !p r) := rfl

section
variable [DecidableEq κ]

/-- `SELECT … WHERE key = k`. -/
def find? (t : Table key) (k : κ) : Option ρ := t.rows.find? (fun r => key r = k)

theorem mem_of_find? {t : Table key} {k : κ} {r : ρ} (h : t.find? k = some r) : r ∈ t.rows :=
  List.mem_of_find?_eq_some h

theorem key_of_find? {t : Table key} {k : κ} {r : ρ} (h : t.find? k = some r) : key r = k := by
  simpa using List.find?_some h

/-- The row of a key is the one row of the table with that key. -/
theorem find?_eq_some_iff {t : Table key} {k : κ} {r : ρ} :
    t.find? k = some r ↔ r ∈ t.rows ∧ key r = k := by
  refine ⟨fun h => ⟨mem_of_find? h, key_of_find? h⟩, fun ⟨hr, hk⟩ => ?_⟩
  cases hf : t.find? k with
  | none => exact absurd hk (by simpa using List.find?_eq_none.mp hf r hr)
  | some r' => rw [t.eq_of_key_eq (mem_of_find? hf) hr ((key_of_find? hf).trans hk.symm)]

theorem find?_eq_none_iff {t : Table key} {k : κ} : t.find? k = none ↔ k ∉ t.keys := by
  simp [find?, keys, List.find?_eq_none]

theorem find?_append (t : Table key) (r : ρ) (h : key r ∉ t.keys) (k : κ) :
    (t.append r h).find? k = if key r = k then some r else t.find? k := by
  simp only [find?, append, List.find?_append, List.find?_singleton, decide_eq_true_eq]
  split
  · next hk =>
    have hnone : t.find? k = none := find?_eq_none_iff.mpr (hk ▸ h)
    rw [find?] at hnone
    rw [hnone]; rfl
  · simp

omit [DecidableEq κ] in
theorem keys_subset_of_prefix {t t' : Table key} (h : t.rows <+: t'.rows) : t.keys ⊆ t'.keys :=
  (h.map key).subset

/-- A table that only grew still finds every row it had. -/
theorem find?_of_prefix {t t' : Table key} (h : t.rows <+: t'.rows) {k : κ} {r : ρ}
    (hr : t.find? k = some r) : t'.find? k = some r :=
  find?_eq_some_iff.mpr ((find?_eq_some_iff.mp hr).imp_left (fun hmem => h.subset hmem))

/-- A plain `INSERT`: nothing on a conflict (the statement raises). -/
def insert (t : Table key) (r : ρ) : Option (Table key) :=
  if h : key r ∈ t.keys then none else some (t.append r h)

theorem insert_eq_some {t t' : Table key} {r : ρ} (h : t.insert r = some t') :
    key r ∉ t.keys ∧ t'.rows = t.rows ++ [r] := by
  unfold insert at h
  split at h
  · cases h
  · next hk => cases h; exact ⟨hk, rfl⟩

/-- `INSERT … ON CONFLICT DO NOTHING RETURNING`: the table, and whether the row went in. -/
def insertOrIgnore (t : Table key) (r : ρ) : Table key × Bool :=
  if h : key r ∈ t.keys then (t, false) else (t.append r h, true)

theorem insertOrIgnore_of_mem {t : Table key} {r : ρ} (h : key r ∈ t.keys) :
    t.insertOrIgnore r = (t, false) := dif_pos h

theorem insertOrIgnore_of_not_mem {t : Table key} {r : ρ} (h : key r ∉ t.keys) :
    t.insertOrIgnore r = (t.append r h, true) := dif_neg h

/-- What `ON CONFLICT DO NOTHING` can do: leave the table to a row of that key, or append. -/
theorem insertOrIgnore_cases (t : Table key) (r : ρ) :
    (key r ∈ t.keys ∧ (t.insertOrIgnore r).1.rows = t.rows ∧ (t.insertOrIgnore r).2 = false) ∨
    (key r ∉ t.keys ∧ (t.insertOrIgnore r).1.rows = t.rows ++ [r] ∧
      (t.insertOrIgnore r).2 = true) := by
  by_cases h : key r ∈ t.keys
  · rw [insertOrIgnore_of_mem h]; exact Or.inl ⟨h, rfl, rfl⟩
  · rw [insertOrIgnore_of_not_mem h]; exact Or.inr ⟨h, rfl, rfl⟩

theorem prefix_insertOrIgnore (t : Table key) (r : ρ) :
    t.rows <+: (t.insertOrIgnore r).1.rows := by
  rcases t.insertOrIgnore_cases r with ⟨_, h, _⟩ | ⟨_, h, _⟩ <;> rw [h]
  exact List.prefix_append _ _

/-- After `ON CONFLICT DO NOTHING` some row has the key. -/
theorem key_mem_insertOrIgnore (t : Table key) (r : ρ) :
    key r ∈ (t.insertOrIgnore r).1.keys := by
  rcases t.insertOrIgnore_cases r with ⟨hk, h, _⟩ | ⟨_, h, _⟩
  · rw [keys, h]; exact hk
  · rw [keys, h]; simp

/-- `INSERT … ON CONFLICT DO UPDATE SET f`: the row in place if the key is there, else the new
    row at the end. -/
def upsert (t : Table key) (r : ρ) (f : ρ → ρ) (hf : ∀ r, key (f r) = key r) : Table key :=
  if h : key r ∈ t.keys then t.updateWhere (fun r' => key r' = key r) f hf else t.append r h

theorem find?_updateWhere_key (t : Table key) (k : κ) (f : ρ → ρ) (hf : ∀ r, key (f r) = key r)
    (k' : κ) : (t.updateWhere (fun r => key r = k) f hf).find? k' =
      if k' = k then (t.find? k').map f else t.find? k' := by
  have hkey : ((fun r => decide (key r = k')) ∘ fun r => if decide (key r = k) = true then f r
      else r) = fun r => decide (key r = k') := by
    funext r; simp only [Function.comp]; split <;> simp [hf]
  rw [find?, rows_updateWhere, List.find?_map, hkey]
  change Option.map _ (t.find? k') = _
  cases h : t.find? k' with
  | none => simp
  | some r => rw [← key_of_find? h]; split <;> simp_all

/-- An upsert touches the row of its key and no other. -/
theorem find?_upsert (t : Table key) (r : ρ) (f : ρ → ρ) (hf : ∀ r, key (f r) = key r) (k : κ) :
    (t.upsert r f hf).find? k =
      if k = key r then some (((t.find? k).map f).getD r) else t.find? k := by
  unfold upsert
  split
  · next h =>
    rw [find?_updateWhere_key]
    split
    · next hk =>
      cases hf' : t.find? k with
      | none => exact absurd (hk ▸ h) (find?_eq_none_iff.mp hf')
      | some r' => rfl
    · rfl
  · next h =>
    rw [find?_append]
    split
    · next hk => rw [if_pos hk.symm, ← hk, find?_eq_none_iff.mpr h]; rfl
    · next hk => rw [if_neg (Ne.symm hk)]

theorem keys_subset_upsert (t : Table key) (r : ρ) (f : ρ → ρ) (hf : ∀ r, key (f r) = key r) :
    t.keys ⊆ (t.upsert r f hf).keys := by
  unfold upsert
  split
  · rw [keys_updateWhere]; exact List.Subset.refl _
  · simp only [keys, append, List.map_append]; exact List.subset_append_left _ _

theorem key_mem_upsert (t : Table key) (r : ρ) (f : ρ → ρ) (hf : ∀ r, key (f r) = key r) :
    key r ∈ (t.upsert r f hf).keys := by
  unfold upsert
  split
  · rw [keys_updateWhere]; assumption
  · simp [keys, append]

end

end Table
