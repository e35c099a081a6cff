import FleetPulse.Lib.Ranks
import FleetPulse.Lib.Sequences

/-! `nearest_rank_percentile`: the observed value at the nearest rank, over rational numbers.

    The rank is the least whole number that is not below `percentile / 100 * n`. With a percentile in
    range it lies between 1 and `n`, so the index `rank - 1` is one of the sorted list. -/

namespace FleetPulse
open Ranks Sequences

/-- What the function raises. -/
inductive PercentileError where
  | value (message : String)
  | index
  deriving DecidableEq

/-- `nearest_rank_percentile(values, percentile)`. -/
def nearestRankPercentile (values : List ℚ) (percentile : ℚ) : Except PercentileError ℚ :=
  if values = [] then .error (.value "at least one value is required")
  else if ¬ (0 < percentile ∧ percentile ≤ 100) then
    .error (.value "percentile must be greater than 0 and at most 100")
  else
    let ordered := values.insertionSort (· ≤ ·)
    let rank := ⌈percentile / 100 * ordered.length⌉
    match getItem? ordered (rank - 1) with
    | some v => .ok v
    | none => .error .index

/-- The rank that the function computes, as a number of elements. -/
def nearestRank (percentile : ℚ) (n : ℕ) : ℕ := ⌈percentile / 100 * n⌉.toNat

section
variable {values : List ℚ} {percentile : ℚ}

theorem nearestRank_bounds {n : ℕ} (hn : 0 < n) (hpos : 0 < percentile) (hle : percentile ≤ 100) :
    (nearestRank percentile n : ℤ) = ⌈percentile / 100 * n⌉ ∧ 1 ≤ nearestRank percentile n ∧
      nearestRank percentile n ≤ n := by
  have hnpos : (0 : ℚ) < n := by exact_mod_cast hn
  have hlow : 0 < ⌈percentile / 100 * n⌉ := Int.ceil_pos.mpr (by positivity)
  have hhigh : ⌈percentile / 100 * n⌉ ≤ n := by
    refine Int.ceil_le.mpr ?_
    have hone : percentile / 100 ≤ 1 := by linarith
    have hmul := mul_le_mul_of_nonneg_right hone hnpos.le
    simpa using hmul
  rw [nearestRank]
  omega

/-- In range the call returns the element of that rank. -/
theorem nearestRankPercentile_hasRank (hne : values ≠ []) (hpos : 0 < percentile)
    (hle : percentile ≤ 100) : ∃ v, nearestRankPercentile values percentile = .ok v ∧
      HasRank (nearestRank percentile values.length) v values := by
  have hlength : (values.insertionSort (· ≤ ·)).length = values.length :=
    List.length_insertionSort _ values
  obtain ⟨hrank, hlow, hhigh⟩ :=
    nearestRank_bounds (List.length_pos_iff.mpr hne) hpos hle
  have hi : nearestRank percentile values.length - 1 < (values.insertionSort (· ≤ ·)).length := by
    omega
  have hindex : (nearestRank percentile values.length : ℤ) - 1 =
      (nearestRank percentile values.length - 1 : ℕ) := by omega
  have hsorted := hasRank_of_sorted (List.pairwise_insertionSort (· ≤ ·) values) hi
  rw [Nat.sub_add_cancel hlow] at hsorted
  refine ⟨_, ?_, hsorted.perm (List.perm_insertionSort _ values)⟩
  simp only [nearestRankPercentile, if_neg hne, hpos, hle, and_self, not_true_eq_false, if_false,
    hlength, ← hrank, hindex, getItem?_of_lt hi]

/-- Outside the range it raises. -/
theorem nearestRankPercentile_eq_error {e : PercentileError} :
    nearestRankPercentile values percentile = .error e ↔
      (values = [] ∧ e = .value "at least one value is required") ∨
      (values ≠ [] ∧ ¬ (0 < percentile ∧ percentile ≤ 100) ∧
        e = .value "percentile must be greater than 0 and at most 100") := by
  by_cases hne : values = []
  · simp [nearestRankPercentile, hne, eq_comm]
  by_cases hrange : 0 < percentile ∧ percentile ≤ 100
  · obtain ⟨v, hv, -⟩ := nearestRankPercentile_hasRank hne hrange.1 hrange.2
    simp [hv, hne, hrange]
  · simp [nearestRankPercentile, hne, hrange, eq_comm]

theorem hasRank_of_ok {v : ℚ} (h : nearestRankPercentile values percentile = .ok v) :
    HasRank (nearestRank percentile values.length) v values := by
  have hnot : ∀ e, nearestRankPercentile values percentile ≠ .error e := by
    rw [h]
    exact fun e he => nomatch he
  have hne : values ≠ [] := fun hnil =>
    hnot _ (nearestRankPercentile_eq_error.mpr (Or.inl ⟨hnil, rfl⟩))
  have hrange : 0 < percentile ∧ percentile ≤ 100 := by
    by_contra hout
    exact hnot _ (nearestRankPercentile_eq_error.mpr (Or.inr ⟨hne, hout, rfl⟩))
  obtain ⟨w, hw, hrank⟩ := nearestRankPercentile_hasRank hne hrange.1 hrange.2
  obtain rfl : v = w := Except.ok.inj (h.symm.trans hw)
  exact hrank

end

/-- NEAREST RANK: a percentile in range of some values is the least of them with so large a part of
    the values at most it; the order of the values makes no difference, a higher percentile is no
    less, and ValueError is raised exactly for no values or a percentile out of range. -/
theorem nearest_rank_percentile_correct :
    (∀ values percentile, values ≠ [] → 0 < percentile → percentile ≤ 100 →
      ∃ v, nearestRankPercentile values percentile = .ok v ∧ v ∈ values ∧
        percentile / 100 * values.length ≤ countLe v values ∧
        ∀ u ∈ values, u < v → (countLe u values : ℚ) < percentile / 100 * values.length) ∧
    (∀ values values' percentile, values.Perm values' →
      nearestRankPercentile values percentile = nearestRankPercentile values' percentile) ∧
    (∀ values p q v w, p ≤ q → nearestRankPercentile values p = .ok v →
      nearestRankPercentile values q = .ok w → v ≤ w) ∧
    ∀ values percentile, (∃ message,
        nearestRankPercentile values percentile = .error (.value message)) ↔
      values = [] ∨ ¬ (0 < percentile ∧ percentile ≤ 100) := by
  refine ⟨?_, ?_, ?_, ?_⟩
  · intro values percentile hne hpos hle
    obtain ⟨v, hv, hrank⟩ := nearestRankPercentile_hasRank hne hpos hle
    have hceil := (nearestRank_bounds (List.length_pos_iff.mpr hne) hpos hle).1
    refine ⟨v, hv, hrank.mem, ?_, fun u hu hlt => ?_⟩
    · have henough : ⌈percentile / 100 * values.length⌉ ≤ (countLe v values : ℤ) := by
        rw [← hceil]
        exact_mod_cast hrank.enough
      exact_mod_cast Int.ceil_le.mp henough
    · have hfew : (countLe u values : ℤ) < ⌈percentile / 100 * values.length⌉ := by
        rw [← hceil]
        exact_mod_cast hrank.least u hu hlt
      exact_mod_cast Int.lt_ceil.mp hfew
  · intro values values' percentile hperm
    by_cases hne : values = []
    · subst hne
      rw [hperm.nil_eq]
    have hne' : values' ≠ [] := fun hnil => hne (hnil ▸ hperm).eq_nil
    by_cases hrange : 0 < percentile ∧ percentile ≤ 100
    · obtain ⟨v, hv, hrank⟩ := nearestRankPercentile_hasRank hne hrange.1 hrange.2
      obtain ⟨w, hw, hrank'⟩ := nearestRankPercentile_hasRank hne' hrange.1 hrange.2
      rw [← hperm.length_eq] at hrank'
      rw [hv, hw, (hrank.perm hperm).unique hrank']
    · rw [nearestRankPercentile_eq_error.mpr (Or.inr ⟨hne, hrange, rfl⟩),
        nearestRankPercentile_eq_error.mpr (Or.inr ⟨hne', hrange, rfl⟩)]
  · intro values p q v w hpq hv hw
    have hmul : p / 100 * values.length ≤ q / 100 * values.length :=
      mul_le_mul_of_nonneg_right (by linarith) (Nat.cast_nonneg _)
    exact (hasRank_of_ok hv).mono (hasRank_of_ok hw) (Int.toNat_le_toNat (Int.ceil_mono hmul))
  · intro values percentile
    simp only [nearestRankPercentile_eq_error, PercentileError.value.injEq]
    constructor
    · rintro ⟨message, ⟨hnil, -⟩ | ⟨-, hout, -⟩⟩
      · exact Or.inl hnil
      · exact Or.inr hout
    · intro h
      by_cases hnil : values = []
      · exact ⟨_, Or.inl ⟨hnil, rfl⟩⟩
      · exact ⟨_, Or.inr ⟨hnil, h.resolve_left hnil, rfl⟩⟩

/-- The 95th percentile of five values is the greatest of them. -/
theorem nearest_rank_percentile_five : ∃ v, nearestRankPercentile [5, 1, 3, 2, 4] 95 = .ok v ∧
    v ∈ [(5 : ℚ), 1, 3, 2, 4] ∧ 95 / 100 * 5 ≤ (countLe v [5, 1, 3, 2, 4] : ℚ) := by
  obtain ⟨v, hv, hmem, henough, -⟩ :=
    nearest_rank_percentile_correct.1 [5, 1, 3, 2, 4] 95 (by simp) (by norm_num) (by norm_num)
  exact ⟨v, hv, hmem, henough⟩

end FleetPulse
