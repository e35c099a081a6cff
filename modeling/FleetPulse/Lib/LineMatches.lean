import FleetPulse.Lib.Regex

/-! All matches in a text, and expressions that match whole lines.

    `finditer` goes from match to match; a match that is there can only be missed because an earlier
    one runs over the place where it begins (`exists_mem_finditer`). -/

namespace Regex

/-- `^` under MULTILINE. -/
def startsLine (prev : Option Char) : Bool := prev.all (fun c => c = '\n')

/-- `$` under MULTILINE. -/
def endsLine (s : List Char) : Bool := s.head?.all (fun c => c = '\n')

/-- `^r$` under MULTILINE: the first way to match that ends with its line. -/
def firstOnLines (r : Regex) (prev : Option Char) (s : List Char) : Option Match :=
  if startsLine prev then
    (r.allMatches prev s).find? (fun m => endsLine (s.drop m.text.length))
  else none

/-- `re.finditer` with an expression that does not match the empty text, given by the match that it
    takes at a position. -/
def finditer (first : Option Char → List Char → Option Match) :
    ℕ → Option Char → List Char → List Match
  | _, _, [] => []
  | skip + 1, _, c :: s => finditer first skip (some c) s
  | 0, prev, c :: s =>
    match first prev (c :: s) with
    | some m => m :: finditer first (m.text.length - 1) (some c) s
    | none => finditer first 0 (some c) s

section
variable {r r' : Regex} {first : Option Char → List Char → Option Match} {prev : Option Char}
  {s u v : List Char} {m : Match}

/-- A match of a sequence, with the rest of the text behind its first part. -/
theorem mem_seq_append : m ∈ (seq r r').allMatches prev s ↔ ∃ a b rest, s = a.text ++ rest ∧
    a ∈ r.allMatches prev s ∧ b ∈ r'.allMatches (lastOr prev a.text) rest ∧
      m = ⟨a.text ++ b.text, a.groups ++ b.groups⟩ := by
  rw [mem_seq]
  constructor
  · rintro ⟨a, ha, b, hb, rfl⟩
    obtain ⟨rest, hrest⟩ := (text_of_mem ha).1
    rw [← hrest, List.drop_left] at hb
    exact ⟨a, b, rest, hrest.symm, ha, hb, rfl⟩
  · rintro ⟨a, b, rest, rfl, ha, hb, rfl⟩
    exact ⟨a, ha, b, by rwa [List.drop_left], rfl⟩

theorem firstOnLines_mem (h : r.firstOnLines prev s = some m) : startsLine prev = true ∧
    m ∈ r.allMatches prev s ∧ endsLine (s.drop m.text.length) = true := by
  unfold firstOnLines at h
  split at h
  · next hstart => exact ⟨hstart, List.mem_of_find?_eq_some h,
      List.find?_some (p := fun m : Match => endsLine (s.drop m.text.length)) h⟩
  · cases h

theorem exists_firstOnLines (hstart : startsLine prev = true) (hm : m ∈ r.allMatches prev s)
    (hend : endsLine (s.drop m.text.length) = true) : ∃ m', r.firstOnLines prev s = some m' := by
  rw [firstOnLines, if_pos hstart, ← Option.isSome_iff_exists, List.find?_isSome]
  exact ⟨m, hm, hend⟩

/-- A run of a class in front of something else is all of the run. -/
theorem takeWhile_run {cls : CharClass} {x y : List Char} (hx : ∀ c ∈ x, cls c = true)
    (hy : ∀ c ∈ y.head?, cls c = false) : (x ++ y).takeWhile cls = x := by
  rw [List.takeWhile_append_of_pos hx]
  cases y with
  | nil => simp
  | cons c y => rw [List.takeWhile_cons_of_neg (by simp [hy c rfl]), List.append_nil]

/-- A text begins with one run of a class only. -/
theorem run_unique {cls : CharClass} {x x' y y' : List Char} (h : x ++ y = x' ++ y')
    (hx : ∀ c ∈ x, cls c = true) (hx' : ∀ c ∈ x', cls c = true)
    (hy : ∀ c ∈ y.head?, cls c = false) (hy' : ∀ c ∈ y'.head?, cls c = false) :
    x = x' ∧ y = y' := by
  have hsame : x = x' := by rw [← takeWhile_run hx hy, h, takeWhile_run hx' hy']
  subst hsame
  exact ⟨rfl, List.append_cancel_left h⟩

/-- A match behind `u` is found, or else one that begins in `u` and runs over its end. -/
theorem exists_mem_finditer {good : Match → Prop} (hv : v ≠ []) :
    ∀ {skip : ℕ} {prev : Option Char} {u : List Char}, skip ≤ u.length →
    (∃ m, first (lastOr prev u) v = some m ∧ good m) →
    (∀ a b m, u = a ++ b → b ≠ [] → first (lastOr prev a) (b ++ v) = some m →
      b.length < m.text.length → good m) →
    ∃ m ∈ finditer first skip prev (u ++ v), good m
  | 0, prev, [], _, ⟨m, hfirst, hgood⟩, _ => by
      obtain ⟨c, v, rfl⟩ := List.exists_cons_of_ne_nil hv
      rw [lastOr_nil] at hfirst
      refine ⟨m, ?_, hgood⟩
      rw [List.nil_append, finditer, hfirst]
      exact List.mem_cons_self
  | skip + 1, _, [], hskip, _, _ => absurd hskip (Nat.not_succ_le_zero skip)
  | skip + 1, prev, c :: u, hskip, hmatch, hover => by
      rw [List.cons_append, finditer]
      rw [lastOr_cons] at hmatch
      refine exists_mem_finditer hv (Nat.le_of_succ_le_succ hskip) hmatch ?_
      intro a b m hu hb hfirst
      exact hover (c :: a) b m (by rw [hu]; rfl) hb (by rw [lastOr_cons]; exact hfirst)
  | 0, prev, c :: u, _, hmatch, hover => by
      rw [lastOr_cons] at hmatch
      have hlater : ∀ {skip}, skip ≤ u.length →
          ∃ m ∈ finditer first skip (some c) (u ++ v), good m := by
        intro skip hskip
        refine exists_mem_finditer hv hskip hmatch ?_
        intro a b m hu hb hfirst
        exact hover (c :: a) b m (by rw [hu]; rfl) hb (by rw [lastOr_cons]; exact hfirst)
      rw [List.cons_append, finditer]
      cases hfirst : first prev (c :: (u ++ v)) with
      | none => exact hlater (Nat.zero_le _)
      | some m =>
        by_cases hlong : (c :: u).length < m.text.length
        · exact ⟨m, List.mem_cons_self,
            hover [] (c :: u) m rfl (List.cons_ne_nil _ _) hfirst hlong⟩
        · rw [List.length_cons] at hlong
          have hshort : m.text.length - 1 ≤ u.length := by omega
          obtain ⟨m', hm', hgood⟩ := hlater hshort
          exact ⟨m', List.mem_cons_of_mem _ hm', hgood⟩

end

end Regex
