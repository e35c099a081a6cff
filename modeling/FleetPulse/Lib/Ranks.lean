import Mathlib

/-! Ranks in a list over a linear order: how many of its elements are at most a given value.

    The element of rank `k` is the least one with `k` elements at most it (`HasRank`). There is one
    such element at most, it is the same in every order of the list, and it does not fall when `k`
    rises; in the sorted list the element at index `i` has rank `i + 1`. -/

namespace Ranks

variable {α : Type*} [LinearOrder α] {l l' : List α} {v w : α} {k k' : ℕ}

/-- How many elements are at most `v`. -/
def countLe (v : α) (l : List α) : ℕ := l.countP (fun u => u ≤ v)

/-- The least element with `k` elements at most it. -/
structure HasRank (k : ℕ) (v : α) (l : List α) : Prop where
  mem : v ∈ l
  enough : k ≤ countLe v l
  least : ∀ u ∈ l, u < v → countLe u l < k

theorem countLe_perm (h : l.Perm l') (v : α) : countLe v l = countLe v l' := h.countP_eq _

theorem HasRank.perm (h : HasRank k v l) (hperm : l.Perm l') : HasRank k v l' where
  mem := hperm.subset h.mem
  enough := countLe_perm hperm v ▸ h.enough
  least u hu hlt := countLe_perm hperm u ▸ h.least u (hperm.symm.subset hu) hlt

/-- A higher rank belongs to an element that is no less. -/
theorem HasRank.mono (h : HasRank k v l) (h' : HasRank k' w l) (hk : k ≤ k') : v ≤ w := by
  by_contra hlt
  have hfew : countLe w l < k := h.least w h'.mem (not_le.mp hlt)
  have hmany : k' ≤ countLe w l := h'.enough
  omega

theorem HasRank.unique (h : HasRank k v l) (h' : HasRank k w l) : v = w :=
  le_antisymm (h.mono h' le_rfl) (h'.mono h le_rfl)

/-- In a sorted list the ranks are the positions, counted from one. -/
theorem hasRank_of_sorted (h : l.Pairwise (· ≤ ·)) {i : ℕ} (hi : i < l.length) :
    HasRank (i + 1) l[i] l where
  mem := List.getElem_mem hi
  enough := by
    -- everything up to the position is at most its element
    have hbefore : ∀ u ∈ l.take (i + 1), u ≤ l[i] := by
      intro u hu
      obtain ⟨j, hj, rfl⟩ := List.mem_take_iff_getElem.mp hu
      rcases Nat.lt_or_ge j i with hlt | hge
      · exact List.pairwise_iff_getElem.mp h j i (by omega) hi hlt
      · have hij : j = i := by omega
        subst hij
        exact le_rfl
    have hall : (l.take (i + 1)).countP (fun u => u ≤ l[i]) = (l.take (i + 1)).length :=
      List.countP_eq_length.mpr (fun u hu => by simpa using hbefore u hu)
    calc i + 1 = (l.take (i + 1)).length := by rw [List.length_take]; omega
      _ = (l.take (i + 1)).countP (fun u => u ≤ l[i]) := hall.symm
      _ ≤ countLe l[i] l := (List.take_sublist (i + 1) l).countP_le
  least := by
    intro u _ hlt
    -- nothing from the position on is at most a smaller element
    have hafter : ∀ x ∈ l.drop i, l[i] ≤ x := by
      intro x hx
      obtain ⟨j, hj, rfl⟩ := List.mem_drop_iff_getElem.mp hx
      rcases Nat.eq_zero_or_pos j with rfl | hpos
      · exact le_rfl
      · exact List.pairwise_iff_getElem.mp h i (i + j) hi _ (by omega)
    have hnone : (l.drop i).countP (fun x => x ≤ u) = 0 :=
      List.countP_eq_zero.mpr (fun x hx => by simpa using hlt.trans_le (hafter x hx))
    have hsplit : countLe u l = (l.take i).countP (fun x => x ≤ u) +
        (l.drop i).countP (fun x => x ≤ u) := by
      rw [countLe, ← List.countP_append, List.take_append_drop]
    have htake := List.countP_le_length (p := fun x => decide (x ≤ u)) (l := l.take i)
    rw [List.length_take] at htake
    omega

end Ranks
