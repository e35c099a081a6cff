import Mathlib.Data.List.Basic
import Mathlib.Logic.Function.Basic
import Mathlib.Order.Defs.LinearOrder
import Mathlib.Tactic

/-! Registers that are overwritten: a list of writes, each to the register of its key, leaves in
    every register the last write to it.

    Writes carry a stamp. When no write to a register has a smaller stamp than the one before it
    (`InOrder`), the register holds the greatest stamp, and what it holds does not depend on the
    order of the writes as long as no two of them share register and stamp. -/

namespace LastWrite

variable {α κ τ β : Type*} [DecidableEq κ] (key : α → κ)

/-- The last write to the register `k`. -/
def last (k : κ) (l : List α) : Option α := (l.filter (fun a => key a = k)).getLast?

variable {key}

theorem last_concat (k : κ) (l : List α) (a : α) :
    last key k (l ++ [a]) = if key a = k then some a else last key k l := by
  unfold last
  rw [List.filter_append]
  by_cases h : key a = k
  · simp [h]
  · simp [h]

theorem mem_of_last {k : κ} {l : List α} {a : α} (h : last key k l = some a) :
    a ∈ l ∧ key a = k := by
  simpa using List.mem_of_getLast? h

theorem last_eq_none_iff {k : κ} {l : List α} : last key k l = none ↔ ∀ a ∈ l, key a ≠ k := by
  simp [last]

theorem exists_last (key : α → κ) {k : κ} {l : List α} {a : α} (ha : a ∈ l) (hk : key a = k) :
    ∃ b, last key k l = some b :=
  Option.ne_none_iff_exists'.mp (fun h => last_eq_none_iff.mp h a ha hk)

/-- The last write to the register of `a` is `a` or comes after it. -/
theorem last_mem_of_append {l l' : List α} {a b : α}
    (h : last key (key a) (l ++ a :: l') = some b) : b ∈ a :: l' := by
  unfold last at h
  rw [List.filter_append, List.filter_cons_of_pos (by simp), List.getLast?_append_cons] at h
  rcases List.mem_cons.mp (List.mem_of_getLast? h) with rfl | hmem
  · exact List.mem_cons_self ..
  · exact List.mem_cons_of_mem _ (List.mem_of_mem_filter hmem)

/-- Performing the writes one after another leaves the last one in each register. -/
theorem foldl_update (g : α → β) (l : List α) :
    l.foldl (fun f a => Function.update f (key a) (some (g a))) (fun _ => none) =
      fun k => (last key k l).map g := by
  induction l using List.reverseRecOn with
  | nil => rfl
  | append_singleton l a ih =>
    rw [List.foldl_append, ih]
    funext k
    rw [last_concat]
    by_cases h : key a = k
    · subst h; simp
    · simp [h, Ne.symm h]

section
variable [LinearOrder τ] (key) (stamp : α → τ)

/-- No write to a register is older than an earlier one to it. -/
def InOrder (l : List α) : Prop := l.Pairwise (fun a b => key a = key b → stamp a ≤ stamp b)

variable {key stamp}

/-- In order, the last write to a register has the greatest stamp of all writes to it. -/
theorem stamp_le_last {l : List α} (h : InOrder key stamp l) {k : κ} {b : α}
    (hb : last key k l = some b) : ∀ a ∈ l, key a = k → stamp a ≤ stamp b := by
  intro a ha hk
  obtain ⟨pre, hpre⟩ := List.getLast?_eq_some_iff.mp hb
  have hpair : (pre ++ [b]).Pairwise (fun a b => key a = key b → stamp a ≤ stamp b) := by
    rw [← hpre]; exact h.filter _
  have hmem : a ∈ pre ++ [b] := by rw [← hpre]; simp [ha, hk]
  rcases List.mem_append.mp hmem with hmem | hmem
  · exact (List.pairwise_append.mp hpair).2.2 a hmem b (List.mem_singleton_self b)
      (hk.trans (mem_of_last hb).2.symm)
  · rw [List.mem_singleton.mp hmem]

/-- One more write keeps the order exactly if it is not older than what its register holds. -/
theorem inOrder_concat_iff {l : List α} {a : α} : InOrder key stamp (l ++ [a]) ↔
    InOrder key stamp l ∧ ∀ b, last key (key a) l = some b → stamp b ≤ stamp a := by
  unfold InOrder
  rw [List.pairwise_append]
  constructor
  · rintro ⟨hl, -, hcross⟩
    refine ⟨hl, fun b hb => ?_⟩
    obtain ⟨hmem, hkey⟩ := mem_of_last hb
    exact hcross b hmem a (List.mem_singleton_self a) hkey
  · rintro ⟨hl, hlast⟩
    refine ⟨hl, List.pairwise_singleton _ _, fun b hb c hc hkey => ?_⟩
    rw [List.mem_singleton.mp hc] at hkey ⊢
    obtain ⟨d, hd⟩ := exists_last key hb hkey
    exact le_trans (stamp_le_last hl hd b hb hkey) (hlast d hd)

/-- ORDER INDEPENDENCE: two lists in order with the same writes leave the same in every register,
    when no two writes to one register have one stamp. -/
theorem last_eq_of_mem_iff {l l' : List α} (h : InOrder key stamp l) (h' : InOrder key stamp l')
    (hmem : ∀ a, a ∈ l ↔ a ∈ l')
    (hdistinct : ∀ a ∈ l, ∀ b ∈ l, key a = key b → stamp a = stamp b → a = b) (k : κ) :
    last key k l = last key k l' := by
  cases hl : last key k l with
  | none =>
    exact (last_eq_none_iff.mpr (fun a ha => last_eq_none_iff.mp hl a ((hmem a).mpr ha))).symm
  | some a =>
    obtain ⟨ha, hka⟩ := mem_of_last hl
    obtain ⟨b, hb⟩ := exists_last key ((hmem a).mp ha) hka
    obtain ⟨hb', hkb⟩ := mem_of_last hb
    have hab := stamp_le_last h' hb a ((hmem a).mp ha) hka
    have hba := stamp_le_last h hl b ((hmem b).mpr hb') hkb
    rw [hb, hdistinct a ha b ((hmem b).mpr hb') (hka.trans hkb.symm) (le_antisymm hab hba)]

end

end LastWrite
