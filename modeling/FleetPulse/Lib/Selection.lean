import Mathlib

/-! The highest elements of a list by a key, as a stable descending sort and a cut give them.

    `TopK key k l top` says what such a selection is, without a word on how it is computed: as many
    elements as fit, the highest first, nothing left out ranks above anything selected, and elements
    of one key are taken in the order of the list. Sorting by any comparison that agrees with the
    keys, and cutting, yields it (`topK_take_insertionSort`). -/

namespace Selection

variable {α κ : Type*} [LinearOrder κ]

/-- What it is for `top` to be the `k` highest elements of `l`. -/
structure TopK (key : α → κ) (k : ℕ) (l top : List α) : Prop where
  length : top.length = min k l.length
  ordered : top.Pairwise (fun a b => key b ≤ key a)
  highest : ∃ others, (top ++ others).Perm l ∧ ∀ a ∈ top, ∀ b ∈ others, key b ≤ key a
  stable : ∀ c, top.filter (fun a => decide (key a = c)) <+:
    l.filter (fun a => decide (key a = c))

variable {key : α → κ} {k : ℕ} {l top : List α}

theorem TopK.subset (h : TopK key k l top) : ∀ a ∈ top, a ∈ l := by
  obtain ⟨others, hperm, -⟩ := h.highest
  exact fun a ha => hperm.subset (List.mem_append_left others ha)

/-! ### The sort -/

section
variable {r : α → α → Prop} [DecidableRel r]

/-- A sort by a comparison that agrees with the keys on the list sorts by the keys. -/
theorem insertionSort_eq_of_iff (h : ∀ a ∈ l, ∀ b ∈ l, r a b ↔ key b ≤ key a) :
    l.insertionSort r = l.insertionSort (fun a b => key b ≤ key a) := by
  have hmap := List.map_insertionSort r (fun a b => key b ≤ key a) id l h
  simpa using hmap

variable (key) in
theorem pairwise_sort (l : List α) :
    (l.insertionSort (fun a b => key b ≤ key a)).Pairwise (fun a b => key b ≤ key a) :=
  @List.pairwise_insertionSort α (fun a b => key b ≤ key a) _
    ⟨fun a b => le_total (key b) (key a)⟩ ⟨fun _ _ _ hab hbc => le_trans hbc hab⟩ l

variable (key) in
/-- STABLE: the elements of one key are in the order of the list. -/
theorem filter_sort (l : List α) (c : κ) :
    (l.insertionSort (fun a b => key b ≤ key a)).filter (fun a => decide (key a = c)) =
      l.filter (fun a => decide (key a = c)) := by
  -- the elements of one key are sorted already, so the sort keeps them as a sublist
  have hsorted : (l.filter (fun a => decide (key a = c))).Pairwise (fun a b => key b ≤ key a) := by
    refine List.pairwise_of_forall_mem_list (fun a ha b hb => ?_)
    have hac : key a = c := by simpa using (List.mem_filter.mp ha).2
    have hbc : key b = c := by simpa using (List.mem_filter.mp hb).2
    rw [hac, hbc]
  have hsub := List.sublist_insertionSort hsorted List.filter_sublist
  have hfilter := hsub.filter (fun a => decide (key a = c))
  rw [List.filter_filter] at hfilter
  simp only [Bool.and_self] at hfilter
  refine (hfilter.eq_of_length ?_).symm
  exact ((List.perm_insertionSort _ l).filter _).length_eq.symm

/-- A stable descending sort and a cut select the highest elements. -/
theorem topK_take_insertionSort (k : ℕ) (h : ∀ a ∈ l, ∀ b ∈ l, r a b ↔ key b ≤ key a) :
    TopK key k l ((l.insertionSort r).take k) := by
  rw [insertionSort_eq_of_iff h]
  have hpairs := pairwise_sort key l
  have hsplit := List.take_append_drop k (l.insertionSort (fun a b => key b ≤ key a))
  have hcross := hpairs
  rw [← hsplit] at hcross
  refine ⟨?_, hpairs.sublist (List.take_sublist ..), ⟨_, ?_, (List.pairwise_append.mp hcross).2.2⟩, ?_⟩
  · rw [List.length_take, List.length_insertionSort]
  · rw [hsplit]
    exact List.perm_insertionSort _ l
  · intro c
    rw [← filter_sort key l c]
    exact (List.take_prefix k _).filter _

end

end Selection
