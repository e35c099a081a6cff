import Mathlib

/-! Python's sequences: indexing, and splitting a text at a separator. -/

namespace Sequences

variable {α : Type*}

/-- `l[i]`: a negative index counts from the end. -/
def getItem? (l : List α) (i : ℤ) : Option α :=
  if 0 ≤ i then l[i.toNat]?
  else if -(l.length : ℤ) ≤ i then l[(l.length + i).toNat]?
  else none

theorem getItem?_of_lt {l : List α} {i : ℕ} (h : i < l.length) : getItem? l i = some l[i] := by
  rw [getItem?, if_pos (Int.natCast_nonneg i), Int.toNat_natCast, List.getElem?_eq_getElem h]

variable [DecidableEq α]

/-- `l.partition(sep)` for a separator of one element: what is before its first occurrence, the
    separator, and what is after it; without an occurrence, all of `l` and twice nothing. -/
def partition (sep : α) : List α → List α × List α × List α
  | [] => ([], [], [])
  | c :: l =>
    if c = sep then ([], [c], l)
    else (c :: (partition sep l).1, (partition sep l).2.1, (partition sep l).2.2)

theorem partition_append {sep : α} : ∀ {before : List α}, sep ∉ before → ∀ after,
    partition sep (before ++ sep :: after) = (before, [sep], after)
  | [], _, after => by simp [partition]
  | c :: before, h, after => by
      have hne : c ≠ sep := fun he => h (by simp [he])
      have hrest := partition_append (fun hm => h (List.mem_cons_of_mem c hm)) after
      simp [partition, hne, hrest]

theorem partition_of_notMem {sep : α} : ∀ {l : List α}, sep ∉ l → partition sep l = (l, [], [])
  | [], _ => rfl
  | c :: l, h => by
      have hne : c ≠ sep := fun he => h (by simp [he])
      have hrest := partition_of_notMem (fun hm => h (List.mem_cons_of_mem c hm))
      simp [partition, hne, hrest]

/-- The two ways a text can be split. -/
theorem partition_cases (sep : α) (l : List α) :
    (sep ∉ l ∧ partition sep l = (l, [], [])) ∨
    ∃ before after, sep ∉ before ∧ l = before ++ sep :: after ∧
      partition sep l = (before, [sep], after) := by
  by_cases h : sep ∈ l
  · obtain ⟨before, after, rfl, hbefore⟩ := List.eq_append_cons_of_mem h
    exact Or.inr ⟨before, after, hbefore, rfl, partition_append hbefore after⟩
  · exact Or.inl ⟨h, partition_of_notMem h⟩

end Sequences
