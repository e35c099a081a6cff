import FleetPulse.Lib.Regex

/-! A substitution in two texts that differ in one stretch.

        u ++ x  ++ X        `Alike`: a match that begins in `u` either is the same in both texts and does
        u ++ x' ++ X        not get to where they differ, or it covers the stretch in both

    When a match covers the stretch, nothing of it is left in the output (`subn_eq_of_alike`). -/

namespace Regex

section
variable {r : Regex} {prev prev' : Option Char} {u v w : List Char} {template : Match → List Char}

/-- Matches `n` characters before two rests: the same one, which goes at most `c` characters into the
    rest, or two that write the same and go `k` and `k'` characters into it. -/
def Alike (template : Match → List Char) (n c k k' : ℕ) (o o' : Option Match) : Prop :=
  (o = o' ∧ ∀ m ∈ o, m.text.length ≤ n + c) ∨
  ∃ m m', o = some m ∧ o' = some m' ∧ template m = template m' ∧ m.text.length = n + k ∧
    m'.text.length = n + k'

theorem reach_cases {c k : ℕ} (h : ∀ s t, u = s ++ t → t ≠ [] →
    ∀ m ∈ r.first (lastOr prev s) (t ++ v), m.text.length ≤ t.length + c ∨
      m.text.length = t.length + k) :
    (r.scan template v 0 prev u).reach ≤ c ∨ (r.scan template v 0 prev u).reach = k := by
  by_cases hzero : (r.scan template v 0 prev u).reach = 0
  · exact Or.inl (by omega)
  · obtain ⟨s, t, m, hu, ht, hm, hlength⟩ := exists_of_reach (Nat.zero_le _) hzero
    rcases h s t hu ht m hm with hle | heq
    · exact Or.inl (by omega)
    · exact Or.inr (by omega)

/-- The two runs over `u` write the same, and stop at the same place before the texts differ, or both
    after the stretch. -/
theorem scan_of_alike {c k k' : ℕ} (hk : c < k) (h : ∀ s t, u = s ++ t → t ≠ [] →
    Alike template t.length c k k' (r.first (lastOr prev s) (t ++ v))
      (r.first (lastOr prev s) (t ++ w))) :
    (r.scan template v 0 prev u).out = (r.scan template w 0 prev u).out ∧
    ((r.scan template v 0 prev u).reach = (r.scan template w 0 prev u).reach ∧
        (r.scan template v 0 prev u).reach ≤ c ∨
      (r.scan template v 0 prev u).reach = k ∧ (r.scan template w 0 prev u).reach = k') := by
  obtain ⟨hout, hreach⟩ : (r.scan template v 0 prev u).out = (r.scan template w 0 prev u).out ∧ _ :=
    scan_alike (fun s t hu ht => (h s t hu ht).imp (fun hsame => hsame.1) id)
  refine ⟨hout, ?_⟩
  have hv : (r.scan template v 0 prev u).reach ≤ c ∨ (r.scan template v 0 prev u).reach = k :=
    reach_cases (fun s t hu ht m hm => by
      rcases h s t hu ht with ⟨-, hle⟩ | ⟨m', -, hm', -, -, hlength, -⟩
      · exact Or.inl (hle m hm)
      · rw [hm'] at hm
        exact Or.inr (by rw [← Option.some.inj hm, hlength]))
  have hw : (r.scan template w 0 prev u).reach ≤ c ∨ (r.scan template w 0 prev u).reach = k' :=
    reach_cases (fun s t hu ht m hm => by
      rcases h s t hu ht with ⟨hsame, hle⟩ | ⟨-, m', -, hm', -, -, hlength⟩
      · exact Or.inl (hle m (by rw [hsame]; exact hm))
      · rw [hm'] at hm
        exact Or.inr (by rw [← Option.some.inj hm, hlength]))
  rcases hreach with hsame | hboth
  · rcases hv with hle | heq
    · exact Or.inl ⟨hsame, hle⟩
    · rcases hw with hle | heq'
      · omega
      · exact Or.inr ⟨heq, heq'⟩
  · exact Or.inr hboth

/-- The matches taken in one run all end in `u`, and there they are the matches of the other text. -/
theorem scan_of_reach : ∀ {skip : ℕ} {prev : Option Char} {u : List Char}, skip ≤ u.length →
    (∀ s t, u = s ++ t → t ≠ [] →
      r.first (lastOr prev s) (t ++ v) = r.first (lastOr prev s) (t ++ w) ∨
      ∃ m, r.first (lastOr prev s) (t ++ v) = some m ∧ t.length < m.text.length) →
    (r.scan template v skip prev u).reach = 0 →
      r.scan template w skip prev u = r.scan template v skip prev u
  | skip, _, [], _, _, _ => by simp [scan]
  | skip + 1, prev, c :: u, hskip, h, hreach => by
      simp only [scan] at hreach ⊢
      exact scan_of_reach (by simpa using hskip) (fun s t hu ht => by
        rw [← lastOr_cons prev]
        exact h (c :: s) t (by rw [hu]; rfl) ht) hreach
  | 0, prev, c :: u, _, h, hreach => by
      have hrest : ∀ s t, u = s ++ t → t ≠ [] →
          r.first (lastOr (some c) s) (t ++ v) = r.first (lastOr (some c) s) (t ++ w) ∨
          ∃ m, r.first (lastOr (some c) s) (t ++ v) = some m ∧ t.length < m.text.length := by
        intro s t hu ht
        rw [← lastOr_cons prev]
        exact h (c :: s) t (by rw [hu]; rfl) ht
      have hhead := h [] (c :: u) rfl (List.cons_ne_nil c u)
      rw [lastOr_nil] at hhead
      simp only [scan] at hreach ⊢
      cases hv : r.first prev (c :: u ++ v) with
      | none =>
        rw [hv] at hreach hhead
        have hw : r.first prev (c :: u ++ w) = none := by
          rcases hhead with hsame | ⟨m, hm, -⟩
          · exact hsame.symm
          · cases hm
        rw [hw]
        simp only at hreach ⊢
        rw [scan_of_reach (Nat.zero_le _) hrest hreach]
      | some m =>
        rw [hv] at hreach hhead
        simp only at hreach
        have hlength : m.text.length - 1 ≤ u.length := by
          by_contra hlong
          rw [scan_skip (by omega)] at hreach
          simp only at hreach
          omega
        have hw : r.first prev (c :: u ++ w) = some m := by
          rcases hhead with hsame | ⟨m', hm', hlong⟩
          · exact hsame.symm
          · obtain rfl : m = m' := Option.some.inj hm'
            simp only [List.length_cons] at hlong
            omega
        rw [hw]
        simp only
        rw [scan_of_reach hlength hrest hreach]

/-! ### What is left of the stretch -/

/-- No match begins with the first character, whatever is before it. -/
def Inert (r : Regex) (X : List Char) : Prop := ∀ c s, X = c :: s → ∀ prev, r.first prev X = none

theorem subn_of_inert {skip : ℕ} {X : List Char} (prev' : Option Char) (h : Inert r X) :
    r.subn template skip prev X = r.subn template skip prev' X := by
  cases X with
  | nil => simp [subn]
  | cons c s =>
    cases skip with
    | succ skip => rfl
    | zero => rw [subn, subn, h c s rfl prev, h c s rfl prev']

/-- The rest of the text does not tell the two stretches before it apart. -/
def Unseen (r : Regex) (x x' X : List Char) : Prop := x.getLast? = x'.getLast? ∨ Inert r X

theorem Unseen.symm {x x' X : List Char} (h : Unseen r x x' X) : Unseen r x' x X := h.imp_left Eq.symm

theorem subn_of_unseen {skip : ℕ} {x x' X : List Char} (h : Unseen r x x' X) :
    r.subn template skip (lastOr prev x) X = r.subn template skip (lastOr prev x') X := by
  rcases h with hlast | hinert
  · rw [lastOr, lastOr, hlast]
  · exact subn_of_inert _ hinert

theorem subn_skip {k : ℕ} (x X : List Char) : (r.subn template (x.length + k) prev (x ++ X)).1 =
    (r.subn template k (lastOr prev x) X).1 := by
  rw [subn_append, scan_skip (Nat.le_add_right ..), List.nil_append, Nat.add_sub_cancel_left]

/-- COVERED: a match that begins in `u` covers the stretch, so the texts that come out are the same. -/
theorem subn_eq_of_alike {k : ℕ} {x x' X : List Char} (hx : x ≠ [])
    (h : ∀ s t, u = s ++ t → t ≠ [] →
      Alike template t.length 0 (x.length + k) (x'.length + k)
        (r.first (lastOr prev s) (t ++ (x ++ X))) (r.first (lastOr prev s) (t ++ (x' ++ X))))
    (hX : Unseen r x x' X) (hreach : (r.scan template (x ++ X) 0 prev u).reach ≠ 0) :
    (r.subn template 0 prev (u ++ (x ++ X))).1 = (r.subn template 0 prev (u ++ (x' ++ X))).1 := by
  have hlength := List.length_pos_iff.mpr hx
  obtain ⟨hout, ⟨-, hzero⟩ | ⟨hv, hw⟩⟩ := scan_of_alike (by omega) h
  · omega
  · rw [subn_append, hout, hv, subn_skip, subn_append, hw, subn_skip, subn_of_unseen hX]

/-! ### A run after an expression -/

variable {R Q : Regex} {cls : CharClass} {min : ℕ} {groups : List Char → List (ℕ × List Char)}
variable {b : Char} {t y z z' X : List Char}

/-- The first part of a sequence. -/
def before : Regex → Regex
  | .seq r _ => r
  | r => r

/-- The expression takes all of a run of the class, if it is long enough. -/
def IsRun (Q : Regex) (cls : CharClass) (min : ℕ) (groups : List Char → List (ℕ × List Char)) : Prop :=
  ∀ prev s, Q.first prev s = if min ≤ (s.takeWhile cls).length then
    some ⟨s.takeWhile cls, groups (s.takeWhile cls)⟩ else none

theorem isRun_many : IsRun (many false min cls) cls min (fun _ => []) := fun _ _ => first_many

theorem isRun_group {k : ℕ} (h : IsRun Q cls min groups) :
    IsRun (group k Q) cls min (fun t => (k, t) :: groups t) := by
  intro prev s
  have hgroup : (group k Q).first prev s =
      (Q.first prev s).map (fun m => ⟨m.text, (k, m.text) :: m.groups⟩) := by
    rw [first, first, allMatches, List.head?_map]
  rw [hgroup, h]
  split <;> rfl

/-- After `t` the expression before the run ends with `b`, or it ends earlier and the run ends before
    `b`. -/
def EndsAt (R : Regex) (cls : CharClass) (b : Char) (prev : Option Char) (t y : List Char) : Prop :=
  ∀ a ∈ R.allMatches prev (t ++ b :: y),
    a.text.length = t.length + 1 ∨ a.text.length ≤ t.length ∧ cls b = false

/-- The match that goes on from one of the matches of the expression. -/
def runFrom (Q : Regex) (prev : Option Char) (s : List Char) (a : Match) : Option Match :=
  (Q.first (lastOr prev a.text) (s.drop a.text.length)).map (fun m =>
    ⟨a.text ++ m.text, a.groups ++ m.groups⟩)

theorem runFrom_inside (hQ : IsRun Q cls min groups) {a : Match} (hb : cls b = false)
    (ha : a.text.length ≤ t.length) (y z : List Char) :
    runFrom Q prev (t ++ b :: y) a = runFrom Q prev (t ++ b :: z) a ∧
      ∀ m ∈ runFrom Q prev (t ++ b :: y) a, m.text.length ≤ t.length := by
  have hrun : ∀ y : List Char, ((t ++ b :: y).drop a.text.length).takeWhile cls =
      (t.drop a.text.length).takeWhile cls := by
    intro y
    rw [List.drop_append_of_le_length ha, List.takeWhile_append]
    split
    · rw [List.takeWhile_cons_of_neg (by rw [hb]; exact Bool.false_ne_true), List.append_nil]
      rename_i hall
      exact ((List.takeWhile_prefix cls).eq_of_length hall).symm
    · rfl
  refine ⟨by rw [runFrom, runFrom, hQ, hQ, hrun, hrun], fun m hm => ?_⟩
  rw [runFrom, hQ, hrun] at hm
  obtain ⟨m', hm', rfl⟩ := Option.map_eq_some_iff.mp hm
  split at hm'
  · obtain rfl := Option.some.inj hm'
    have := (List.takeWhile_prefix cls (l := t.drop a.text.length)).length_le
    simp only [List.length_append, List.length_drop] at this ⊢
    omega
  · cases hm'

theorem runFrom_end (hQ : IsRun Q cls min groups) {a : Match} (ha : a.text.length = t.length + 1) :
    runFrom Q prev (t ++ b :: y) a = if min ≤ (y.takeWhile cls).length then
      some ⟨a.text ++ y.takeWhile cls, a.groups ++ groups (y.takeWhile cls)⟩ else none := by
  have hdrop : (t ++ b :: y).drop a.text.length = y := by
    rw [ha, List.drop_append]
    simp
  rw [runFrom, hQ, hdrop]
  split <;> rfl

theorem first_eq_runFrom (prev : Option Char) (s : List Char) :
    (seq R Q).first prev s = (R.allMatches prev s).findSome? (runFrom Q prev s) := first_seq

/-- What comes after `b` makes no difference to the expression before the run. -/
theorem allMatches_eq (hy : EndsAt R cls b prev t y) (hz : EndsAt R cls b prev t z)
    (hhead : y.head? = z.head?) :
    R.allMatches prev (t ++ b :: y) = R.allMatches prev (t ++ b :: z) := by
  have hwithin : ∀ {y : List Char}, EndsAt R cls b prev t y →
      (R.allMatches prev (t ++ [b] ++ y)).filter (fun m => m.text.length ≤ (t ++ [b]).length) =
        R.allMatches prev (t ++ b :: y) := by
    intro y hy
    rw [List.append_assoc, List.singleton_append]
    refine List.filter_eq_self.mpr (fun a ha => ?_)
    have hle : a.text.length ≤ t.length + 1 := by
      rcases hy a ha with h | ⟨h, -⟩ <;> omega
    simpa using hle
  rw [← hwithin hy, ← hwithin hz, matches_within R prev (t ++ [b]) hhead]

theorem first_run_cases (hQ : IsRun Q cls min groups) (hy : EndsAt R cls b prev t y) :
    ∀ m ∈ (seq R Q).first prev (t ++ b :: y), m.text.length ≤ t.length ∨
      min ≤ (y.takeWhile cls).length ∧ m.text.length = t.length + 1 + (y.takeWhile cls).length := by
  intro m hm
  rw [first_eq_runFrom] at hm
  obtain ⟨a, ha, hm⟩ := List.exists_of_findSome?_eq_some hm
  rcases hy a ha with hend | ⟨hinside, hb⟩
  · rw [runFrom_end hQ hend] at hm
    split at hm
    · rename_i hmin
      obtain rfl := Option.some.inj hm
      exact Or.inr ⟨hmin, by simp [hend]⟩
    · cases hm
  · exact Or.inl ((runFrom_inside hQ hb hinside y y).2 m hm)

/-- Two runs that are long enough: the same match before them, or one that covers each. -/
theorem first_run_alike (hQ : IsRun Q cls min groups) (hy : EndsAt R cls b prev t y)
    (hz : EndsAt R cls b prev t z) (hhead : y.head? = z.head?)
    (htemplate : ∀ a g, template ⟨a ++ y.takeWhile cls, g ++ groups (y.takeWhile cls)⟩ =
      template ⟨a ++ z.takeWhile cls, g ++ groups (z.takeWhile cls)⟩)
    (hminY : min ≤ (y.takeWhile cls).length) (hminZ : min ≤ (z.takeWhile cls).length) :
    Alike template t.length 0 (1 + (y.takeWhile cls).length) (1 + (z.takeWhile cls).length)
      ((seq R Q).first prev (t ++ b :: y)) ((seq R Q).first prev (t ++ b :: z)) := by
  rw [first_eq_runFrom, first_eq_runFrom, ← allMatches_eq hy hz hhead]
  have hall : ∀ a ∈ R.allMatches prev (t ++ b :: y),
      a.text.length = t.length + 1 ∨ a.text.length ≤ t.length ∧ cls b = false := hy
  generalize R.allMatches prev (t ++ b :: y) = all at hall ⊢
  induction all with
  | nil => exact Or.inl ⟨rfl, fun m hm => by cases hm⟩
  | cons a rest ih =>
    rw [List.findSome?_cons, List.findSome?_cons]
    rcases hall a (List.mem_cons_self ..) with hend | ⟨hinside, hb⟩
    · rw [runFrom_end hQ hend, runFrom_end hQ hend, if_pos hminY, if_pos hminZ]
      refine Or.inr ⟨_, _, rfl, rfl, htemplate a.text a.groups, ?_, ?_⟩ <;>
        rw [List.length_append, hend, Nat.add_assoc]
    · obtain ⟨hsame, hle⟩ : runFrom Q prev (t ++ b :: y) a = _ ∧ _ :=
        runFrom_inside hQ hb hinside y z
      rw [← hsame]
      cases hm : runFrom Q prev (t ++ b :: y) a with
      | some m => exact Or.inl ⟨rfl, fun m' hm' => hle m' (by rw [hm]; exact hm')⟩
      | none => exact ih (fun a' ha' => hall a' (List.mem_cons_of_mem a ha'))

/-- If the second run is long enough when the first is, a match of the first text is one of the second,
    or the second has one that covers its run. -/
theorem first_run_le (hQ : IsRun Q cls min groups) (hy : EndsAt R cls b prev t y)
    (hz : EndsAt R cls b prev t z) (hhead : y.head? = z.head?)
    (hmin : min ≤ (y.takeWhile cls).length → min ≤ (z.takeWhile cls).length) :
    (seq R Q).first prev (t ++ b :: z) = (seq R Q).first prev (t ++ b :: y) ∨
      ∃ m, (seq R Q).first prev (t ++ b :: z) = some m ∧ t.length < m.text.length := by
  rw [first_eq_runFrom, first_eq_runFrom, ← allMatches_eq hy hz hhead]
  have hall : ∀ a ∈ R.allMatches prev (t ++ b :: y),
      a.text.length = t.length + 1 ∨ a.text.length ≤ t.length ∧ cls b = false := hy
  generalize R.allMatches prev (t ++ b :: y) = all at hall ⊢
  induction all with
  | nil => exact Or.inl rfl
  | cons a rest ih =>
    have ih := ih (fun a' ha' => hall a' (List.mem_cons_of_mem a ha'))
    rw [List.findSome?_cons, List.findSome?_cons]
    rcases hall a (List.mem_cons_self ..) with hend | ⟨hinside, hb⟩
    · rw [runFrom_end hQ hend, runFrom_end hQ hend]
      by_cases hz' : min ≤ (z.takeWhile cls).length
      · rw [if_pos hz']
        exact Or.inr ⟨_, rfl, by rw [List.length_append, hend]; omega⟩
      · rw [if_neg hz', if_neg (fun hy' => hz' (hmin hy'))]
        exact ih
    · have hsame : runFrom Q prev (t ++ b :: z) a = _ := (runFrom_inside hQ hb hinside z y).1
      rw [hsame]
      cases hm : runFrom Q prev (t ++ b :: y) a with
      | some m => exact Or.inl rfl
      | none => exact ih

/-- COVERED RUN: the run is covered, so the texts that come out are the same. -/
theorem subn_eq_of_run (hQ : IsRun Q cls min groups)
    (hy : ∀ s t, u = s ++ t → t ≠ [] → EndsAt R cls b (lastOr prev s) t (z ++ X))
    (hz : ∀ s t, u = s ++ t → t ≠ [] → EndsAt R cls b (lastOr prev s) t (z' ++ X))
    (hcls : ∀ c ∈ z, cls c = true) (hcls' : ∀ c ∈ z', cls c = true)
    (hhead : (z ++ X).head? = (z' ++ X).head?)
    (htemplate : ∀ a g x x', template ⟨a ++ x, g ++ groups x⟩ = template ⟨a ++ x', g ++ groups x'⟩)
    (hX : Unseen (seq R Q) (b :: z) (b :: z') X) (hmin : min ≤ ((z ++ X).takeWhile cls).length)
    (hmin' : min ≤ ((z' ++ X).takeWhile cls).length)
    (hreach : ((seq R Q).scan template (b :: (z ++ X)) 0 prev u).reach ≠ 0) :
    ((seq R Q).subn template 0 prev (u ++ b :: (z ++ X))).1 =
      ((seq R Q).subn template 0 prev (u ++ b :: (z' ++ X))).1 := by
  have hlength : ∀ {z : List Char}, (∀ c ∈ z, cls c = true) →
      1 + ((z ++ X).takeWhile cls).length = (b :: z).length + (X.takeWhile cls).length := by
    intro z hz
    rw [List.takeWhile_append_of_pos hz, List.length_append, List.length_cons]
    omega
  have halike : ∀ s t, u = s ++ t → t ≠ [] → Alike template t.length 0
      ((b :: z).length + (X.takeWhile cls).length) ((b :: z').length + (X.takeWhile cls).length)
      ((seq R Q).first (lastOr prev s) (t ++ (b :: z ++ X)))
      ((seq R Q).first (lastOr prev s) (t ++ (b :: z' ++ X))) := by
    intro s t hu ht
    rw [← hlength hcls, ← hlength hcls']
    exact first_run_alike hQ (hy s t hu ht) (hz s t hu ht) hhead
      (fun a g => htemplate a g _ _) hmin hmin'
  exact subn_eq_of_alike (List.cons_ne_nil b z) halike hX hreach

/-- A run that is covered is long enough. -/
theorem min_le_of_reach (hQ : IsRun Q cls min groups)
    (hy : ∀ s t, u = s ++ t → t ≠ [] → EndsAt R cls b (lastOr prev s) t y)
    (hreach : ((seq R Q).scan template (b :: y) 0 prev u).reach ≠ 0) :
    min ≤ (y.takeWhile cls).length := by
  obtain ⟨s, t, m, hu, ht, hm, hlength⟩ := exists_of_reach (Nat.zero_le _) hreach
  rcases first_run_cases hQ (hy s t hu ht) m hm with hle | ⟨hmin, -⟩
  · omega
  · exact hmin

/-- Neither run is covered, so the two scans are the same. -/
theorem scan_eq_of_run (hQ : IsRun Q cls min groups)
    (hy : ∀ s t, u = s ++ t → t ≠ [] → EndsAt R cls b (lastOr prev s) t y)
    (hz : ∀ s t, u = s ++ t → t ≠ [] → EndsAt R cls b (lastOr prev s) t z)
    (hhead : y.head? = z.head?)
    (hreach : ((seq R Q).scan template (b :: y) 0 prev u).reach = 0)
    (hreach' : ((seq R Q).scan template (b :: z) 0 prev u).reach = 0) :
    (seq R Q).scan template (b :: y) 0 prev u = (seq R Q).scan template (b :: z) 0 prev u := by
  by_cases hmin : min ≤ (y.takeWhile cls).length → min ≤ (z.takeWhile cls).length
  · exact scan_of_reach (Nat.zero_le _) (fun s t hu ht =>
      first_run_le hQ (hy s t hu ht) (hz s t hu ht) hhead hmin) hreach'
  · symm
    exact scan_of_reach (Nat.zero_le _) (fun s t hu ht =>
      first_run_le hQ (hz s t hu ht) (hy s t hu ht) hhead.symm (fun h => by
        by_contra hnot
        exact hmin (fun hy' => absurd hy' hnot))) hreach

/-- Two stretches behind `b`, each in the class: a match that begins before covers it in both texts, or
    there is none that gets to it and what is before it becomes the same. -/
theorem covered_or_apart (template : Match → List Char) (u : List Char) (hQ : IsRun Q cls min groups)
    (hy : ∀ s t, u = s ++ t → t ≠ [] → EndsAt R cls b (lastOr prev s) t (z ++ X))
    (hz : ∀ s t, u = s ++ t → t ≠ [] → EndsAt R cls b (lastOr prev s) t (z' ++ X))
    (hcls : ∀ c ∈ z, cls c = true) (hcls' : ∀ c ∈ z', cls c = true)
    (hhead : (z ++ X).head? = (z' ++ X).head?)
    (htemplate : ∀ a g x x', template ⟨a ++ x, g ++ groups x⟩ = template ⟨a ++ x', g ++ groups x'⟩)
    (hX : Unseen (seq R Q) (b :: z) (b :: z') X)
    (hmin : min ≤ ((z ++ X).takeWhile cls).length ↔ min ≤ ((z' ++ X).takeWhile cls).length) :
    ((seq R Q).subn template 0 prev (u ++ b :: (z ++ X))).1 =
        ((seq R Q).subn template 0 prev (u ++ b :: (z' ++ X))).1 ∨
      ∃ out, (seq R Q).scan template (b :: (z ++ X)) 0 prev u = ⟨out, 0⟩ ∧
        (seq R Q).scan template (b :: (z' ++ X)) 0 prev u = ⟨out, 0⟩ := by
  by_cases hreach : ((seq R Q).scan template (b :: (z ++ X)) 0 prev u).reach = 0
  · by_cases hreach' : ((seq R Q).scan template (b :: (z' ++ X)) 0 prev u).reach = 0
    · have hsame := scan_eq_of_run hQ hy hz hhead hreach hreach'
      exact .inr ⟨_, Scan.eq_of_reach hreach, hsame ▸ Scan.eq_of_reach hreach⟩
    · have hlong := min_le_of_reach hQ hz hreach'
      exact .inl (subn_eq_of_run hQ hz hy hcls' hcls hhead.symm htemplate hX.symm hlong
        (hmin.mpr hlong) hreach').symm
  · have hlong := min_le_of_reach hQ hy hreach
    exact .inl (subn_eq_of_run hQ hy hz hcls hcls' hhead htemplate hX hlong (hmin.mp hlong) hreach)

end

end Regex
