import Mathlib

/-! Regular expressions of a backtracking engine, and substitution with them.

    `allMatches` lists every way to match at one position in the order in which the engine tries
    them, so its head is the match that the engine takes. Repetition is of single characters; a match
    may look at the character before it and the one after it (`\b`) and at nothing else around it.
    `subn` replaces from left to right:

        text   ──▶  c c [ match ] c [ match ] c …
        output ──▶  c c  template c  template c …

    `scan` is the part of that run over the beginning of a text; its `reach` is how far into the rest
    of the text the last match goes. Everything said about a substitution in two texts goes through
    it. -/

/-- A class of characters. -/
abbrev CharClass := Char → Bool

inductive Regex where
  | chars (classes : List CharClass)
  | boundary (word : CharClass)
  | many (isLazy : Bool) (min : ℕ) (cls : CharClass)
  | seq (r s : Regex)
  | alt (r s : Regex)
  | group (k : ℕ) (r : Regex)

namespace Regex

/-- A bounded quantifier is decided by its list, and not by going through all characters. -/
scoped instance (priority := high) decidableForallMem {α : Type*} (p : α → Prop) [DecidablePred p]
    (l : List α) : Decidable (∀ a ∈ l, p a) := List.decidableBAll p l

/-- A match: the text, and the text of each group in it. -/
structure Match where
  text : List Char
  groups : List (ℕ × List Char)
  deriving DecidableEq

/-- `\k` in a template. -/
def Match.group (m : Match) (k : ℕ) : List Char := (m.groups.lookup k).getD []

/-- The character before a position, after some more text. -/
def lastOr (prev : Option Char) (text : List Char) : Option Char := text.getLast?.or prev

/-- The texts at the beginning that are made of the class, shortest first. -/
def runs (cls : CharClass) : List Char → List (List Char)
  | [] => [[]]
  | c :: s => [] :: if cls c then (runs cls s).map (c :: ·) else []

/-- The text begins with a character of each class. -/
def beginsWith : List CharClass → List Char → Bool
  | [], _ => true
  | _ :: _, [] => false
  | p :: ps, c :: s => p c && beginsWith ps s

/-- Every match at a position, with the character before it, in the order of the engine. -/
def allMatches : Regex → Option Char → List Char → List Match
  | .chars ps, _, s => if beginsWith ps s then [⟨s.take ps.length, []⟩] else []
  | .boundary word, prev, s => if prev.any word = s.head?.any word then [] else [⟨[], []⟩]
  | .many isLazy min cls, _, s =>
    let texts := (runs cls s).filter (fun t => min ≤ t.length)
    (if isLazy then texts else texts.reverse).map (⟨·, []⟩)
  | .seq r r', prev, s => (r.allMatches prev s).flatMap (fun m =>
      (r'.allMatches (lastOr prev m.text) (s.drop m.text.length)).map (fun m' =>
        ⟨m.text ++ m'.text, m.groups ++ m'.groups⟩))
  | .alt r r', prev, s => r.allMatches prev s ++ r'.allMatches prev s
  | .group k r, prev, s => (r.allMatches prev s).map (fun m => ⟨m.text, (k, m.text) :: m.groups⟩)

/-- The match that the engine takes. -/
def first (r : Regex) (prev : Option Char) (s : List Char) : Option Match :=
  (r.allMatches prev s).head?

/-- `subn` for a pattern that does not match the empty text: the new text and the number of
    replacements. The number of characters still to be skipped belongs to the last match. -/
def subn (r : Regex) (template : Match → List Char) :
    ℕ → Option Char → List Char → List Char × ℕ
  | _, _, [] => ([], 0)
  | skip + 1, _, c :: s => subn r template skip (some c) s
  | 0, prev, c :: s =>
    match r.first prev (c :: s) with
    | some m =>
      let (out, n) := subn r template (m.text.length - 1) (some c) s
      (template m ++ out, n + 1)
    | none =>
      let (out, n) := subn r template 0 (some c) s
      (c :: out, n)

/-! ### What a match is made of -/

/-- The texts that the expression describes; `\b` is not looked at. -/
def Describes : Regex → List Char → Prop
  | .chars ps, t => List.Forall₂ (fun p c => p c = true) ps t
  | .boundary _, t => t = []
  | .many _ min cls, t => min ≤ t.length ∧ ∀ c ∈ t, cls c = true
  | .seq r r', t => ∃ a b, t = a ++ b ∧ r.Describes a ∧ r'.Describes b
  | .alt r r', t => r.Describes t ∨ r'.Describes t
  | .group _ r, t => r.Describes t

/-- Without `\b` and groups. -/
def Plain : Regex → Prop
  | .chars _ => True
  | .boundary _ => False
  | .many _ _ _ => True
  | .seq r r' => r.Plain ∧ r'.Plain
  | .alt r r' => r.Plain ∧ r'.Plain
  | .group _ _ => False

section
variable {r r' : Regex} {prev : Option Char} {s t u v w : List Char} {m : Match} {cls : CharClass}

theorem mem_runs : ∀ {s t : List Char}, t ∈ runs cls s ↔ t <+: s ∧ ∀ c ∈ t, cls c = true
  | [], t => by simp [runs]; rintro rfl; simp
  | c :: s, [] => by simp [runs]
  | c :: s, d :: t => by
      by_cases hc : cls c = true
      · simp only [runs, hc, if_true, List.mem_cons, List.mem_map, List.cons_prefix_cons,
          reduceCtorEq, false_or, List.cons.injEq, forall_eq_or_imp]
        constructor
        · rintro ⟨t', ht', rfl, rfl⟩
          obtain ⟨hpre, hall⟩ := mem_runs.mp ht'
          exact ⟨⟨rfl, hpre⟩, hc, hall⟩
        · rintro ⟨⟨rfl, hpre⟩, -, hall⟩
          exact ⟨t, mem_runs.mpr ⟨hpre, hall⟩, rfl, rfl⟩
      · simp only [runs, hc, List.mem_cons, reduceCtorEq, false_or, List.cons_prefix_cons,
          forall_eq_or_imp, Bool.false_eq_true, if_false, List.not_mem_nil, false_iff]
        rintro ⟨⟨rfl, -⟩, hd, -⟩
        exact hc hd

theorem beginsWith_iff : ∀ {ps : List CharClass} {s : List Char}, beginsWith ps s = true ↔
    ps.length ≤ s.length ∧ List.Forall₂ (fun p c => p c = true) ps (s.take ps.length)
  | [], s => by simp [beginsWith]
  | p :: ps, [] => by simp [beginsWith]
  | p :: ps, c :: s => by
      simp only [beginsWith, Bool.and_eq_true, beginsWith_iff, List.length_cons, List.take_succ_cons,
        List.forall₂_cons, Nat.add_le_add_iff_right]
      tauto

theorem mem_seq : m ∈ (seq r r').allMatches prev s ↔ ∃ a ∈ r.allMatches prev s,
    ∃ b ∈ r'.allMatches (lastOr prev a.text) (s.drop a.text.length),
      m = ⟨a.text ++ b.text, a.groups ++ b.groups⟩ := by
  simp only [allMatches, List.mem_flatMap, List.mem_map]
  exact ⟨fun ⟨a, ha, b, hb, h⟩ => ⟨a, ha, b, hb, h.symm⟩,
    fun ⟨a, ha, b, hb, h⟩ => ⟨a, ha, b, hb, h.symm⟩⟩

theorem mem_seq_of {a b : Match} (ha : a ∈ r.allMatches prev s)
    (hb : b ∈ r'.allMatches (lastOr prev a.text) (s.drop a.text.length)) :
    ⟨a.text ++ b.text, a.groups ++ b.groups⟩ ∈ (seq r r').allMatches prev s :=
  mem_seq.mpr ⟨a, ha, b, hb, rfl⟩

theorem mem_many {isLazy : Bool} {min : ℕ} : m ∈ (many isLazy min cls).allMatches prev s ↔
    m.groups = [] ∧ min ≤ m.text.length ∧ m.text <+: s ∧ ∀ c ∈ m.text, cls c = true := by
  have hmem : ∀ t, t ∈ (if isLazy then (runs cls s).filter (fun t => decide (min ≤ t.length))
      else ((runs cls s).filter (fun t => decide (min ≤ t.length))).reverse) ↔
        min ≤ t.length ∧ t <+: s ∧ ∀ c ∈ t, cls c = true := by
    intro t
    cases isLazy <;> simp [mem_runs, and_comm]
  simp only [allMatches, List.mem_map, hmem]
  constructor
  · rintro ⟨t, ht, rfl⟩
    exact ⟨rfl, ht⟩
  · rintro ⟨hgroups, h⟩
    exact ⟨m.text, h, by rw [← hgroups]⟩

theorem mem_chars {ps : List CharClass} : m ∈ (chars ps).allMatches prev s ↔
    m = ⟨s.take ps.length, []⟩ ∧ beginsWith ps s = true := by
  by_cases h : beginsWith ps s = true <;> simp [allMatches, h]

theorem mem_boundary {word : CharClass} (h : m ∈ (boundary word).allMatches prev s) :
    m = ⟨[], []⟩ := by
  unfold allMatches at h
  split at h
  · cases h
  · exact List.mem_singleton.mp h

theorem mem_group {k : ℕ} : m ∈ (group k r).allMatches prev s ↔
    ∃ a ∈ r.allMatches prev s, m = ⟨a.text, (k, a.text) :: a.groups⟩ := by
  simp only [allMatches, List.mem_map, eq_comm]

/-- A match is a prefix of what is left of the text, and one of the texts described. -/
theorem text_of_mem : ∀ {r : Regex} {prev : Option Char} {s : List Char} {m : Match},
    m ∈ r.allMatches prev s → m.text <+: s ∧ r.Describes m.text
  | .chars ps, prev, s, m, h => by
      obtain ⟨rfl, hs⟩ := mem_chars.mp h
      exact ⟨List.take_prefix _ _, (beginsWith_iff.mp hs).2⟩
  | .boundary word, prev, s, m, h => by
      rw [mem_boundary h]
      exact ⟨List.nil_prefix, rfl⟩
  | .many isLazy min cls, prev, s, m, h => by
      obtain ⟨-, hmin, hpre, hall⟩ := mem_many.mp h
      exact ⟨hpre, hmin, hall⟩
  | .seq r r', prev, s, m, h => by
      obtain ⟨a, ha, b, hb, rfl⟩ := mem_seq.mp h
      obtain ⟨hpa, hda⟩ := text_of_mem ha
      obtain ⟨hpb, hdb⟩ := text_of_mem hb
      refine ⟨?_, a.text, b.text, rfl, hda, hdb⟩
      obtain ⟨rest, hrest⟩ := hpa
      rw [← hrest, List.drop_left] at hpb
      rw [← hrest]
      exact (List.prefix_append_right_inj _).mpr hpb
  | .alt r r', prev, s, m, h => by
      rcases List.mem_append.mp h with h | h
      · exact ⟨(text_of_mem h).1, Or.inl (text_of_mem h).2⟩
      · exact ⟨(text_of_mem h).1, Or.inr (text_of_mem h).2⟩
  | .group k r, prev, s, m, h => by
      obtain ⟨a, ha, rfl⟩ := mem_group.mp h
      obtain ⟨hpre, hdescribes⟩ := text_of_mem ha
      exact ⟨hpre, hdescribes⟩

/-- The matches of a plain expression are the prefixes that it describes. -/
theorem mem_plain : ∀ {r : Regex} {prev : Option Char} {s : List Char} {m : Match}, r.Plain →
    (m ∈ r.allMatches prev s ↔ m.groups = [] ∧ m.text <+: s ∧ r.Describes m.text)
  | .chars ps, prev, s, m, _ => by
      rw [mem_chars, beginsWith_iff]
      constructor
      · rintro ⟨rfl, -, hall⟩
        exact ⟨rfl, List.take_prefix _ _, hall⟩
      · rintro ⟨hgroups, hpre, hall⟩
        have htake : m.text = s.take ps.length := by
          rw [List.prefix_iff_eq_take.mp hpre, hall.length_eq]
        refine ⟨by rw [← htake, ← hgroups], ?_, htake ▸ hall⟩
        rw [hall.length_eq]
        exact hpre.length_le
  | .many isLazy min cls, prev, s, m, _ => by
      rw [mem_many]
      simp only [Describes]
      tauto
  | .seq r r', prev, s, m, h => by
      rw [mem_seq]
      constructor
      · rintro ⟨a, ha, b, hb, rfl⟩
        obtain ⟨hga, hpa, hda⟩ := (mem_plain h.1).mp ha
        obtain ⟨hgb, hpb, hdb⟩ := (mem_plain h.2).mp hb
        refine ⟨by rw [hga, hgb]; rfl, ?_, a.text, b.text, rfl, hda, hdb⟩
        obtain ⟨rest, rfl⟩ := hpa
        rw [List.drop_left] at hpb
        exact (List.prefix_append_right_inj _).mpr hpb
      · rintro ⟨hgroups, ⟨rest, rfl⟩, x, y, htext, hx, hy⟩
        refine ⟨⟨x, []⟩, (mem_plain h.1).mpr ⟨rfl, ⟨y ++ rest, by rw [htext, List.append_assoc]⟩, hx⟩,
          ⟨y, []⟩, (mem_plain h.2).mpr ⟨rfl, ?_, hy⟩, by rw [← htext, List.append_nil, ← hgroups]⟩
        rw [htext, List.append_assoc, List.drop_left]
        exact List.prefix_append y rest
  | .alt r r', prev, s, m, h => by
      rw [allMatches, List.mem_append, mem_plain h.1, mem_plain h.2]
      simp only [Describes]
      tauto

theorem first_mem (h : r.first prev s = some m) : m ∈ r.allMatches prev s := by
  unfold first at h
  exact List.mem_of_mem_head? h

theorem first_eq_none : r.first prev s = none ↔ ∀ m, m ∉ r.allMatches prev s := by
  simp [first, List.head?_eq_none_iff, List.eq_nil_iff_forall_not_mem]

theorem first_of_unique (hm : m ∈ r.allMatches prev s) (h : ∀ a ∈ r.allMatches prev s, a = m) :
    r.first prev s = some m := by
  cases hfirst : r.first prev s with
  | none => exact absurd hm (first_eq_none.mp hfirst m)
  | some a => rw [h a (first_mem hfirst)]

/-! ### What a match looks at -/

theorem runs_within : ∀ (u v : List Char),
    (runs cls (u ++ v)).filter (fun t => t.length ≤ u.length) = runs cls u
  | [], [] => by simp [runs]
  | [], c :: v => by
      by_cases hc : cls c = true <;> simp [runs, hc, List.filter_map, Function.comp_def]
  | c :: u, v => by
      have ih : (runs cls (u ++ v)).filter (fun t => decide (t.length ≤ u.length)) = runs cls u :=
        runs_within u v
      by_cases hc : cls c = true <;> simp [runs, hc, List.filter_map, Function.comp_def, ih]

theorem flatMap_filter {α β : Type*} {f : α → List β} {p : α → Bool} {l : List α}
    (h : ∀ a ∈ l, p a = false → f a = []) : l.flatMap f = (l.filter p).flatMap f := by
  induction l with
  | nil => rfl
  | cons a l ih =>
    have ih := ih (fun b hb => h b (List.mem_cons_of_mem a hb))
    by_cases ha : p a = true
    · simp [ha, ih]
    · simp [ha, ih, h a (List.mem_cons_self ..) (by simpa using ha)]

/-- The matches within the beginning of a text depend on that beginning and on one more
    character. -/
theorem matches_within : ∀ (r : Regex) (prev : Option Char) (u : List Char) {v w : List Char},
    v.head? = w.head? →
    (r.allMatches prev (u ++ v)).filter (fun m => m.text.length ≤ u.length) =
      (r.allMatches prev (u ++ w)).filter (fun m => m.text.length ≤ u.length)
  | .chars ps, prev, u, v, w, _ => by
      by_cases hlen : ps.length ≤ u.length
      · have hsame : ∀ x : List Char, beginsWith ps (u ++ x) = beginsWith ps u := by
          intro x
          rw [Bool.eq_iff_iff, beginsWith_iff, beginsWith_iff, List.take_append_of_le_length hlen]
          simp [hlen]
          omega
        simp only [allMatches, hsame, List.take_append_of_le_length hlen]
      · have hnone : ∀ x : List Char, ((chars ps).allMatches prev (u ++ x)).filter
            (fun m => decide (m.text.length ≤ u.length)) = [] := by
          intro x
          refine List.filter_eq_nil_iff.mpr (fun m hm => ?_)
          obtain ⟨rfl, hx⟩ := mem_chars.mp hm
          have := (beginsWith_iff.mp hx).1
          simp only [List.length_take, decide_eq_true_eq]
          omega
        rw [hnone, hnone]
  | .boundary word, prev, u, v, w, h => by
      have hhead : (u ++ v).head? = (u ++ w).head? := by cases u <;> simp [h]
      simp only [allMatches, hhead]
  | .many isLazy min cls, prev, u, v, w, _ => by
      have hwithin : ∀ x : List Char, ((runs cls (u ++ x)).filter
          (fun t => decide (min ≤ t.length))).filter (fun t => decide (t.length ≤ u.length)) =
            (runs cls u).filter (fun t => decide (min ≤ t.length)) := by
        intro x
        rw [List.filter_comm, runs_within]
      cases isLazy <;>
        simp [allMatches, List.filter_map, Function.comp_def, List.filter_reverse, hwithin]
  | .seq r r', prev, u, v, w, h => by
      have hpart : ∀ x : List Char,
          ((seq r r').allMatches prev (u ++ x)).filter (fun m => m.text.length ≤ u.length) =
            ((r.allMatches prev (u ++ x)).filter (fun m => m.text.length ≤ u.length)).flatMap
              (fun m => ((r'.allMatches (lastOr prev m.text) (u.drop m.text.length ++ x)).filter
                (fun m' => m'.text.length ≤ (u.drop m.text.length).length)).map (fun m' =>
                  ⟨m.text ++ m'.text, m.groups ++ m'.groups⟩)) := by
        intro x
        simp only [allMatches, List.filter_flatMap, List.filter_map]
        rw [flatMap_filter (p := fun m : Match => decide (m.text.length ≤ u.length))]
        · refine List.flatMap_congr (fun m hm => ?_)
          have hm : m.text.length ≤ u.length := by simpa using (List.mem_filter.mp hm).2
          rw [List.drop_append_of_le_length hm]
          refine congrArg _ (List.filter_congr (fun m' _ => ?_))
          simp only [Function.comp, List.length_append, List.length_drop, decide_eq_decide]
          omega
        · intro m _ hm
          have hm : u.length < m.text.length := by simpa using hm
          refine List.map_eq_nil_iff.mpr (List.filter_eq_nil_iff.mpr (fun m' _ => ?_))
          simp only [Function.comp, List.length_append, decide_eq_true_eq]
          omega
      rw [hpart, hpart, matches_within r prev u h]
      refine List.flatMap_congr (fun m _ => ?_)
      rw [matches_within r' (lastOr prev m.text) (u.drop m.text.length) h]
  | .alt r r', prev, u, v, w, h => by
      simp only [allMatches, List.filter_append, matches_within r prev u h,
        matches_within r' prev u h]
  | .group k r, prev, u, v, w, h => by
      simp only [allMatches, List.filter_map, Function.comp_def, matches_within r prev u h]

/-- Two texts with a beginning in common, and no match that leaves it: the same match. -/
theorem first_congr (h : v.head? = w.head?)
    (hv : ∀ m ∈ r.allMatches prev (u ++ v), m.text.length ≤ u.length)
    (hw : ∀ m ∈ r.allMatches prev (u ++ w), m.text.length ≤ u.length) :
    r.first prev (u ++ v) = r.first prev (u ++ w) := by
  have hsame := matches_within r prev u h
  rw [List.filter_eq_self.mpr (by simpa using hv), List.filter_eq_self.mpr (by simpa using hw)]
    at hsame
  rw [first, first, hsame]

/-! ### Substitution in the beginning of a text -/

/-- What a substitution makes of the beginning of a text, and how many of the characters after it
    belong to its last match. -/
structure Scan where
  out : List Char
  reach : ℕ

theorem Scan.eq_of_reach {x : Scan} (h : x.reach = 0) : x = ⟨x.out, 0⟩ := by
  cases x
  cases h
  rfl

/-- The run of `subn` over the beginning of a text, with what follows it. -/
def scan (r : Regex) (template : Match → List Char) (v : List Char) :
    ℕ → Option Char → List Char → Scan
  | skip, _, [] => ⟨[], skip⟩
  | skip + 1, _, c :: u => scan r template v skip (some c) u
  | 0, prev, c :: u =>
    match r.first prev (c :: u ++ v) with
    | some m =>
      let rest := scan r template v (m.text.length - 1) (some c) u
      ⟨template m ++ rest.out, rest.reach⟩
    | none =>
      let rest := scan r template v 0 (some c) u
      ⟨c :: rest.out, rest.reach⟩

theorem scan_cons_of_none {template : Match → List Char} {c : Char}
    (h : r.first prev (c :: u ++ v) = none) : r.scan template v 0 prev (c :: u) =
      ⟨c :: (r.scan template v 0 (some c) u).out, (r.scan template v 0 (some c) u).reach⟩ := by
  rw [scan, h]

theorem lastOr_cons (prev : Option Char) (c : Char) (t : List Char) :
    lastOr prev (c :: t) = lastOr (some c) t := by
  simp only [lastOr, List.getLast?_cons]
  cases t.getLast? <;> rfl

@[simp] theorem lastOr_nil (prev : Option Char) : lastOr prev [] = prev := rfl

theorem lastOr_eq {c : Char} (h : t.getLast? = some c) : lastOr prev t = some c := by
  rw [lastOr, h, Option.some_or]

variable {template : Match → List Char}

/-- A substitution is its run over the beginning and then over the rest. -/
theorem subn_append (v : List Char) : ∀ (skip : ℕ) (prev : Option Char) (u : List Char),
    (r.subn template skip prev (u ++ v)).1 = (r.scan template v skip prev u).out ++
      (r.subn template (r.scan template v skip prev u).reach (lastOr prev u) v).1
  | skip, prev, [] => by simp [scan]
  | skip + 1, prev, c :: u => by
      rw [lastOr_cons]
      exact subn_append v skip (some c) u
  | 0, prev, c :: u => by
      rw [lastOr_cons]
      simp only [List.cons_append, subn, scan]
      cases r.first prev (c :: (u ++ v)) with
      | none => simp [subn_append v 0 (some c) u]
      | some m => simp [subn_append v (m.text.length - 1) (some c) u, List.append_assoc]

theorem scan_append (v : List Char) : ∀ (skip : ℕ) (prev : Option Char) (s t : List Char),
    r.scan template v skip prev (s ++ t) =
      ⟨(r.scan template (t ++ v) skip prev s).out ++ (r.scan template v
          (r.scan template (t ++ v) skip prev s).reach (lastOr prev s) t).out,
        (r.scan template v (r.scan template (t ++ v) skip prev s).reach (lastOr prev s) t).reach⟩
  | skip, prev, [], t => by simp [scan]
  | skip + 1, prev, c :: s, t => by
      rw [lastOr_cons]
      exact scan_append v skip (some c) s t
  | 0, prev, c :: s, t => by
      rw [lastOr_cons]
      simp only [List.cons_append, scan, List.append_assoc]
      cases r.first prev (c :: (s ++ (t ++ v))) with
      | none => simp [scan_append v 0 (some c) s t]
      | some m => simp [scan_append v (m.text.length - 1) (some c) s t, List.append_assoc]

/-- Inside a match nothing is written. -/
theorem scan_skip : ∀ {skip : ℕ} {prev : Option Char} {u : List Char}, u.length ≤ skip →
    r.scan template v skip prev u = ⟨[], skip - u.length⟩
  | _, _, [], _ => by simp [scan]
  | 0, _, c :: u, h => by simp at h
  | skip + 1, _, c :: u, h => by
      rw [scan, scan_skip (by simpa using h)]
      simp

theorem scan_of_first {groups : List (ℕ × List Char)} (hu : u ≠ [])
    (h : r.first prev (u ++ v) = some ⟨u, groups⟩) :
    r.scan template v 0 prev u = ⟨template ⟨u, groups⟩, 0⟩ := by
  cases u with
  | nil => exact absurd rfl hu
  | cons c u =>
    rw [scan, h]
    simp [scan_skip]

/-- A stretch in which no match begins stays as it is. -/
theorem scan_none : ∀ {prev : Option Char} {u : List Char},
    (∀ s t, u = s ++ t → t ≠ [] → r.first (lastOr prev s) (t ++ v) = none) →
      r.scan template v 0 prev u = ⟨u, 0⟩
  | _, [], _ => rfl
  | prev, c :: u, h => by
      have hhead := h [] (c :: u) rfl (List.cons_ne_nil c u)
      have hrest : r.scan template v 0 (some c) u = ⟨u, 0⟩ := scan_none (fun s t hu ht => by
        rw [← lastOr_cons prev]
        exact h (c :: s) t (by rw [hu]; rfl) ht)
      rw [lastOr_nil] at hhead
      rw [scan, hhead, hrest]

/-- Two texts in which the same matches begin, up to matches that cover the same stretch and write
    the same but go `a` characters into the rest of one text and `b` into that of the other. -/
theorem scan_alike {a b : ℕ} : ∀ {skip : ℕ} {prev : Option Char} {u : List Char},
    (∀ s t, u = s ++ t → t ≠ [] →
      r.first (lastOr prev s) (t ++ v) = r.first (lastOr prev s) (t ++ w) ∨
      ∃ m m', r.first (lastOr prev s) (t ++ v) = some m ∧
        r.first (lastOr prev s) (t ++ w) = some m' ∧ template m = template m' ∧
        m.text.length = t.length + a ∧ m'.text.length = t.length + b) →
    (r.scan template v skip prev u).out = (r.scan template w skip prev u).out ∧
    ((r.scan template v skip prev u).reach = (r.scan template w skip prev u).reach ∨
      ((r.scan template v skip prev u).reach = a ∧ (r.scan template w skip prev u).reach = b))
  | skip, _, [], _ => by simp [scan]
  | skip + 1, prev, c :: u, h => by
      simp only [scan]
      exact scan_alike (fun s t hu ht => by
        rw [← lastOr_cons prev]
        exact h (c :: s) t (by rw [hu]; rfl) ht)
  | 0, prev, c :: u, h => by
      have hrest : ∀ k : ℕ, (r.scan template v k (some c) u).out =
            (r.scan template w k (some c) u).out ∧
          ((r.scan template v k (some c) u).reach = (r.scan template w k (some c) u).reach ∨
            ((r.scan template v k (some c) u).reach = a ∧
              (r.scan template w k (some c) u).reach = b)) := fun k =>
        scan_alike (fun s t hu ht => by
          rw [← lastOr_cons prev]
          exact h (c :: s) t (by rw [hu]; rfl) ht)
      rcases h [] (c :: u) rfl (List.cons_ne_nil c u) with heq | ⟨m, m', hm, hm', ht, ha, hb⟩
      · rw [lastOr_nil] at heq
        simp only [scan, heq]
        cases r.first prev (c :: u ++ w) with
        | none => simpa using hrest 0
        | some m => simpa using hrest (m.text.length - 1)
      · rw [lastOr_nil] at hm hm'
        have hskip : ∀ {k n : ℕ} {x : List Char}, k = (c :: u).length + n →
            r.scan template x (k - 1) (some c) u = ⟨[], n⟩ := by
          intro k n x hk
          rw [List.length_cons] at hk
          rw [scan_skip (by omega), show k - 1 - u.length = n by omega]
        simp only [scan, hm, hm', hskip ha, hskip hb, ht]
        exact ⟨trivial, Or.inr ⟨trivial, trivial⟩⟩

/-- The same matches begin, so the runs are the same. -/
theorem scan_congr (h : ∀ s t, u = s ++ t → t ≠ [] →
    r.first (lastOr prev s) (t ++ v) = r.first (lastOr prev s) (t ++ w)) :
    r.scan template v 0 prev u = r.scan template w 0 prev u := by
  have hfirst : ∀ skip : ℕ, r.scan template v skip prev u = r.scan template w skip prev u := by
    induction u generalizing prev with
    | nil => intro skip; simp [scan]
    | cons c u ih =>
      have hrest : ∀ skip : ℕ, r.scan template v skip (some c) u =
          r.scan template w skip (some c) u := ih (fun s t hu ht => by
        rw [← lastOr_cons prev]
        exact h (c :: s) t (by rw [hu]; rfl) ht)
      intro skip
      cases skip with
      | succ skip => simpa only [scan] using hrest skip
      | zero =>
        have hhead := h [] (c :: u) rfl (List.cons_ne_nil c u)
        rw [lastOr_nil] at hhead
        simp only [scan, hhead, hrest]
  exact hfirst 0

/-- A match that begins in `u`, with `v` after it. -/
def beginsIn (r : Regex) (v : List Char) : Option Char → List Char → Bool
  | _, [] => false
  | prev, c :: u => (r.first prev (c :: u ++ v)).isSome || beginsIn r v (some c) u

theorem first_of_beginsIn : ∀ {prev : Option Char} {u : List Char},
    r.beginsIn v prev u = false → ∀ s t, u = s ++ t → t ≠ [] →
      r.first (lastOr prev s) (t ++ v) = none
  | _, [], _, s, t, hu, ht => absurd (List.append_eq_nil_iff.mp hu.symm).2 ht
  | prev, c :: u, h, s, t, hu, ht => by
      rw [beginsIn, Bool.or_eq_false_iff] at h
      cases s with
      | nil =>
        obtain rfl : c :: u = t := hu
        simpa using h.1
      | cons d s =>
        obtain ⟨rfl, rfl⟩ := List.cons.inj hu
        rw [lastOr_cons]
        exact first_of_beginsIn h.2 s t rfl ht

theorem scan_of_beginsIn (h : r.beginsIn v prev u = false) :
    r.scan template v 0 prev u = ⟨u, 0⟩ := scan_none (first_of_beginsIn h)

/-- Two stretches, with no match that runs from the first into the second. -/
theorem scan_append_of {x y : List Char} (hs : r.scan template (t ++ v) 0 prev s = ⟨x, 0⟩)
    (ht : r.scan template v 0 (lastOr prev s) t = ⟨y, 0⟩) :
    r.scan template v 0 prev (s ++ t) = ⟨x ++ y, 0⟩ := by
  rw [scan_append, hs, ht]

theorem subn_append_of {x : List Char} (hs : r.scan template v 0 prev u = ⟨x, 0⟩) :
    (r.subn template 0 prev (u ++ v)).1 = x ++ (r.subn template 0 (lastOr prev u) v).1 := by
  rw [subn_append, hs]

/-! ### Barriers -/

/-- What is not in the head of a text, followed by what is not in the rest of it. -/
theorem not_infix_append {N head run : List Char} {a : Char} (hN : ¬ N <:+: head) (ha : a ∉ run) :
    ¬ N ++ [a] <:+: head ++ run := by
  rintro ⟨x, y, hxy⟩
  rcases List.append_eq_append_iff.mp hxy with ⟨z, hhead, -⟩ | ⟨z, hleft, hrun⟩
  · exact hN ⟨x, [a] ++ z, by rw [hhead]; simp⟩
  · rcases List.eq_nil_or_concat z with rfl | ⟨z', b, rfl⟩
    · refine hN ⟨x, [a], ?_⟩
      rw [List.append_nil] at hleft
      rw [← hleft, List.append_assoc]
    · have hlast : a = b := by
        have := congrArg List.getLast? hleft
        simpa using this
      exact ha (by rw [hrun, hlast]; simp)

/-- A text that goes on in two ways after a stretch that no match can contain. -/
theorem first_of_barrier {a : Char} (h : ∀ t, r.Describes t → ¬ u ++ [a] <+: t) (x y : List Char) :
    r.first prev (u ++ a :: x) = r.first prev (u ++ a :: y) := by
  have hlength : ∀ (z : List Char) (m : Match), m ∈ r.allMatches prev (u ++ a :: z) →
      m.text.length ≤ u.length := by
    intro z m hm
    obtain ⟨hpre, hdescribes⟩ := text_of_mem hm
    by_contra hlong
    refine h _ hdescribes (List.prefix_of_prefix_length_le ?_ hpre ?_)
    · exact ⟨z, by simp⟩
    · simp only [List.length_append, List.length_singleton]
      omega
  exact first_congr rfl (hlength x) (hlength y)

theorem scan_of_barrier {N : List Char} {a : Char}
    (h : ∀ t, r.Describes t → ¬ N ++ [a] <:+: t) (x y : List Char) :
    r.scan template (N ++ a :: x) 0 prev u = r.scan template (N ++ a :: y) 0 prev u := by
  refine scan_congr (fun s t _ _ => ?_)
  rw [← List.append_assoc, ← List.append_assoc]
  refine first_of_barrier (fun t' hdescribes hpre => h t' hdescribes ?_) x y
  rw [List.append_assoc] at hpre
  exact (List.suffix_append t (N ++ [a])).isInfix.trans hpre.isInfix

/-! ### What the run over the beginning leaves -/

/-- A match that reaches beyond the beginning is one that begins there. -/
theorem exists_of_reach : ∀ {skip : ℕ} {prev : Option Char} {u : List Char},
    skip ≤ u.length → (r.scan template v skip prev u).reach ≠ 0 →
      ∃ s t m, u = s ++ t ∧ t ≠ [] ∧ r.first (lastOr prev s) (t ++ v) = some m ∧
        m.text.length = t.length + (r.scan template v skip prev u).reach
  | skip, _, [], hskip, h => by
      simp only [scan] at h
      exact absurd (Nat.le_zero.mp hskip) h
  | skip + 1, prev, c :: u, hskip, h => by
      simp only [scan] at h ⊢
      obtain ⟨s, t, m, rfl, ht, hm, hlength⟩ := exists_of_reach (by simpa using hskip) h
      exact ⟨c :: s, t, m, rfl, ht, by rwa [lastOr_cons], hlength⟩
  | 0, prev, c :: u, _, h => by
      simp only [scan] at h ⊢
      cases hfirst : r.first prev (c :: u ++ v) with
      | none =>
        simp only [hfirst] at h ⊢
        obtain ⟨s, t, m, rfl, ht, hm, hlength⟩ := exists_of_reach (Nat.zero_le _) h
        exact ⟨c :: s, t, m, rfl, ht, by rwa [lastOr_cons], hlength⟩
      | some m =>
        simp only [hfirst] at h ⊢
        by_cases hlong : u.length < m.text.length - 1
        · rw [scan_skip hlong.le] at h ⊢
          refine ⟨[], c :: u, m, rfl, List.cons_ne_nil c u, hfirst, ?_⟩
          simp only [List.length_cons]
          omega
        · obtain ⟨s, t, m', rfl, ht, hm, hlength⟩ := exists_of_reach (by omega) h
          exact ⟨c :: s, t, m', rfl, ht, by rwa [lastOr_cons], hlength⟩

/-- What is written is copied, or written by the template of a match. -/
theorem mem_out : ∀ {skip : ℕ} {prev : Option Char} {u : List Char} {c : Char},
    c ∈ (r.scan template v skip prev u).out →
      c ∈ u ∨ ∃ prev' s m, m ∈ r.allMatches prev' s ∧ c ∈ template m
  | _, _, [], _, h => by simp [scan] at h
  | skip + 1, _, d :: u, c, h => by
      simp only [scan] at h
      exact (mem_out h).imp_left (List.mem_cons_of_mem d)
  | 0, prev, d :: u, c, h => by
      simp only [scan] at h
      cases hfirst : r.first prev (d :: u ++ v) with
      | none =>
        simp only [hfirst] at h
        rcases List.mem_cons.mp h with rfl | h
        · exact Or.inl (List.mem_cons_self ..)
        · exact (mem_out h).imp_left (List.mem_cons_of_mem d)
      | some m =>
        simp only [hfirst] at h
        rcases List.mem_append.mp h with h | h
        · exact Or.inr ⟨prev, _, m, first_mem hfirst, h⟩
        · exact (mem_out h).imp_left (List.mem_cons_of_mem d)

/-- The first way to match the first part after which the second matches, and the first match of the
    second part there. -/
theorem first_seq : (seq r r').first prev s = (r.allMatches prev s).findSome? (fun a =>
    (r'.first (lastOr prev a.text) (s.drop a.text.length)).map (fun b =>
      ⟨a.text ++ b.text, a.groups ++ b.groups⟩)) := by
  simp only [first, allMatches, List.head?_flatMap, List.head?_map]

/-- When the first part matches in one way only, the second decides. -/
theorem first_seq_of_unique (h : ∀ a ∈ r.allMatches prev s, ∀ b ∈ r.allMatches prev s, a = b) :
    (seq r r').first prev s = (r.first prev s).bind (fun a =>
      (r'.first (lastOr prev a.text) (s.drop a.text.length)).map (fun b =>
        ⟨a.text ++ b.text, a.groups ++ b.groups⟩)) := by
  rw [first_seq, first]
  cases hall : r.allMatches prev s with
  | nil => rfl
  | cons a rest =>
    have hsame : ∀ b ∈ rest, b = a := fun b hb =>
      h b (by rw [hall]; exact List.mem_cons_of_mem a hb) a (by rw [hall]; exact List.mem_cons_self ..)
    rw [List.head?_cons, Option.bind_some, List.findSome?_cons]
    cases hfirst : r'.first (lastOr prev a.text) (s.drop a.text.length) with
    | some b => rfl
    | none =>
      refine List.findSome?_eq_none_iff.mpr (fun b hb => ?_)
      rw [hsame b hb, hfirst]
      rfl

/-- `.*?` before an expression: here, or one character further on. -/
theorem first_lazy (c : Char) (s : List Char) :
    (seq (many true 0 (fun _ => true)) r).first prev (c :: s) =
      (r.first prev (c :: s)).or (((seq (many true 0 (fun _ => true)) r).first (some c) s).map
        (fun m => ⟨c :: m.text, m.groups⟩)) := by
  have hruns : ∀ (prev : Option Char) (s : List Char),
      (seq (many true 0 (fun _ => true)) r).allMatches prev s =
        (runs (fun _ => true) s).flatMap (fun t => (r.allMatches (lastOr prev t)
          (s.drop t.length)).map (fun m' => ⟨t ++ m'.text, m'.groups⟩)) := by
    intro prev s
    simp [allMatches, List.flatMap_map]
  simp only [first, hruns]
  rw [← List.head?_map, List.map_flatMap]
  simp [runs, List.flatMap_map, lastOr_cons, Function.comp_def]

theorem runs_reverse : ∀ s : List Char, ∃ rest, (runs cls s).reverse = s.takeWhile cls :: rest
  | [] => ⟨[], rfl⟩
  | c :: s => by
      obtain ⟨rest, h⟩ := runs_reverse s
      by_cases hc : cls c = true
      · exact ⟨rest.map (c :: ·) ++ [[]], by simp [runs, hc, ← List.map_reverse, h]⟩
      · exact ⟨[], by simp [runs, hc]⟩

theorem length_le_takeWhile (h : t ∈ runs cls s) : t.length ≤ (s.takeWhile cls).length := by
  obtain ⟨⟨rest, rfl⟩, hall⟩ := mem_runs.mp h
  rw [List.takeWhile_append_of_pos hall, List.length_append]
  exact Nat.le_add_right ..

/-- A greedy run takes everything, if that is enough. -/
theorem first_many {min : ℕ} : (many false min cls).first prev s =
    if min ≤ (s.takeWhile cls).length then some ⟨s.takeWhile cls, []⟩ else none := by
  obtain ⟨rest, hrest⟩ : ∃ rest, (runs cls s).reverse = s.takeWhile cls :: rest := runs_reverse s
  rw [first, allMatches, List.head?_map, if_neg Bool.false_ne_true, ← List.filter_reverse, hrest]
  by_cases hmin : min ≤ (s.takeWhile cls).length
  · rw [List.filter_cons_of_pos (by simpa using hmin), if_pos hmin]
    rfl
  · have hnone : (s.takeWhile cls :: rest).filter (fun t => decide (min ≤ t.length)) = [] := by
      refine List.filter_eq_nil_iff.mpr (fun t ht => ?_)
      rw [← hrest, List.mem_reverse] at ht
      have := length_le_takeWhile ht
      simp only [decide_eq_true_eq]
      omega
    rw [hnone, if_neg hmin]
    rfl

/-- Substitution of one character for those of a class goes character by character. -/
theorem subn_class (cls : CharClass) (a : Char) : ∀ (prev : Option Char) (s : List Char),
    ((chars [cls]).subn (fun _ => [a]) 0 prev s).1 = s.map (fun c => if cls c then a else c)
  | _, [] => rfl
  | _, c :: s => by
      have hrest := subn_class cls a (some c) s
      by_cases hc : cls c = true
      · simp [subn, first, allMatches, beginsWith, hc, hrest]
      · simp [subn, first, allMatches, beginsWith, hc, hrest]

end

end Regex
