import Mathlib.Data.List.Dedup
import Mathlib.Data.List.Perm.Basic
import Mathlib.Tactic

/-! Joining and grouping as a query does it. Rows are lists; a left outer join keeps the rows without a
    match, with NULL for the columns of the other side; `GROUP BY` makes one group of the rows of each
    key; `count(column)` leaves out NULL.

    Grouped by a key of the left side, the groups of a left outer join are the rows of the left side
    with their matches, in some order (`groupBy_leftJoin`). -/

namespace Relational

variable {α β κ : Type*} [DecidableEq κ] (on : α → β → Bool)

/-- What the join makes of one row of the left side. -/
def joined (bs : List β) (a : α) : List (α × Option β) :=
  match bs.filter (on a) with
  | [] => [(a, none)]
  | b :: rest => (b :: rest).map (fun b => (a, some b))

/-- `LEFT OUTER JOIN … ON …`. -/
def leftJoin (as : List α) (bs : List β) : List (α × Option β) := as.flatMap (joined on bs)

/-- `GROUP BY`, with all rows of each group. -/
def groupBy (key : α → κ) (rows : List α) : List (List α) :=
  (rows.map key).dedup.map (fun k => rows.filter (fun r => key r = k))

/-- `count(column)` of the other side. -/
def count (rows : List (α × Option β)) : ℕ := rows.countP (fun r => r.2.isSome)

variable {on} {key : α → κ} {as : List α} {bs : List β} {a : α}

theorem fst_of_mem_joined {r : α × Option β} (h : r ∈ joined on bs a) : r.1 = a := by
  unfold joined at h
  split at h
  · rw [List.mem_singleton.mp h]
  · obtain ⟨b, -, rfl⟩ := List.mem_map.mp h
    rfl

theorem head?_joined : ((joined on bs a).head?).map Prod.fst = some a := by
  unfold joined
  split <;> rfl

/-- The matches are counted; a row without one counts as none. -/
theorem count_joined : count (joined on bs a) = (bs.filter (on a)).length := by
  unfold joined
  split
  · next h =>
    rw [h]
    rfl
  · next h =>
    rw [h, count, List.countP_map]
    exact List.countP_eq_length.mpr (fun _ _ => rfl)

omit [DecidableEq κ] in
theorem mem_keys_leftJoin {k : κ} :
    k ∈ (leftJoin on as bs).map (fun r => key r.1) ↔ k ∈ as.map key := by
  simp only [leftJoin, List.mem_map, List.mem_flatMap]
  constructor
  · rintro ⟨r, ⟨a, ha, hr⟩, rfl⟩
    exact ⟨a, ha, by rw [fst_of_mem_joined hr]⟩
  · rintro ⟨a, ha, rfl⟩
    obtain ⟨r, hr, hfst⟩ := Option.map_eq_some_iff.mp (@head?_joined α β on bs a)
    exact ⟨r, ⟨a, ha, List.mem_of_head? hr⟩, by rw [hfst]⟩

theorem filter_joined (k : κ) : (joined on bs a).filter (fun r => key r.1 = k) =
    if key a = k then joined on bs a else [] := by
  split
  · next h => exact List.filter_eq_self.mpr (fun r hr => by simpa [fst_of_mem_joined hr] using h)
  · next h => exact List.filter_eq_nil_iff.mpr (fun r hr => by simpa [fst_of_mem_joined hr] using h)

/-- The group of a row of the left side, when its key is no other row's. -/
theorem filter_leftJoin : ∀ {as : List α}, (as.map key).Nodup → a ∈ as →
    (leftJoin on as bs).filter (fun r => key r.1 = key a) = joined on bs a
  | x :: xs, hnodup, ha => by
      obtain ⟨hfresh, hnodup⟩ := List.nodup_cons.mp hnodup
      have hrest : key x = key a →
          (leftJoin on xs bs).filter (fun r => key r.1 = key a) = [] := by
        intro hkey
        refine List.filter_eq_nil_iff.mpr (fun r hr => ?_)
        have hmem : key r.1 ∈ xs.map key := mem_keys_leftJoin.mp (List.mem_map_of_mem hr)
        intro hsame
        exact hfresh (hkey.trans (of_decide_eq_true hsame).symm ▸ hmem)
      rw [leftJoin, List.flatMap_cons, List.filter_append, filter_joined]
      rcases List.mem_cons.mp ha with rfl | ha
      · rw [if_pos rfl]
        exact (congrArg _ (hrest rfl)).trans (List.append_nil _)
      · have hne : key x ≠ key a := fun h => hfresh (h ▸ List.mem_map_of_mem ha)
        rw [if_neg hne, List.nil_append]
        exact filter_leftJoin hnodup ha

/-- ONE GROUP A ROW: the groups of the join are the left rows with their matches. -/
theorem groupBy_leftJoin (hnodup : (as.map key).Nodup) :
    (groupBy (fun r => key r.1) (leftJoin on as bs)).Perm (as.map (joined on bs)) := by
  have hkeys : ((leftJoin on as bs).map (fun r => key r.1)).dedup.Perm (as.map key) :=
    (List.perm_ext_iff_of_nodup (List.nodup_dedup _) hnodup).mpr
      (fun k => List.mem_dedup.trans mem_keys_leftJoin)
  have hgroups := hkeys.map (fun k => (leftJoin on as bs).filter (fun r => key r.1 = k))
  rw [List.map_map] at hgroups
  refine hgroups.trans (List.Perm.of_eq (List.map_congr_left (fun a ha => ?_)))
  exact filter_leftJoin hnodup ha

end Relational
