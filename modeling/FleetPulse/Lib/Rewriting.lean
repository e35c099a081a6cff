import FleetPulse.Lib.TwoTexts

/-! What a substitution keeps of a text and what it writes a mark over.

        text      k k k  [ hidden ]  k k …
        output    k k k   m a r k    k k …

    Each match keeps its two ends. A stretch of the output that cannot be part of a mark was kept
    (`exists_keep`), so what a pattern finds in the output of another can be looked for in the text
    before. A pattern that hides the run behind a head is `Settled` in a text where every such run is
    the mark: then its substitution changes nothing (`HeadRun.subn_eq_self`), its own output is settled
    (`HeadRun.settled`), and another substitution keeps that (`Settled.written`). -/

namespace Regex

/-- A character that is kept, or a stretch that the mark is written over. -/
inductive Piece where
  | kept (c : Char)
  | hidden (v : List Char)

/-- The text before the substitution. -/
def source : List Piece → List Char
  | [] => []
  | .kept c :: P => c :: source P
  | .hidden v :: P => v ++ source P

/-- The text after it. -/
def written (mark : List Char) : List Piece → List Char
  | [] => []
  | .kept c :: P => c :: written mark P
  | .hidden _ :: P => mark ++ written mark P

def keep (t : List Char) : List Piece := t.map .kept

/-- A match in three: the mark is written over the core. -/
structure Cut where
  before : List Char
  core : List Char
  after : List Char

def Cut.text (x : Cut) : List Char := x.before ++ x.core ++ x.after

def Cut.pieces (x : Cut) : List Piece := keep x.before ++ .hidden x.core :: keep x.after

/-- The substitution in `s ++ t` takes the match at the beginning of `t`. -/
def Takes (r : Regex) (template : Match → List Char) (s t : List Char) (m : Match) : Prop :=
  (r.scan template t 0 none s).reach = 0 ∧ r.first (lastOr none s) t = some m

/-- The pieces of `t` behind `s`: a character is kept where no match begins, and a match that is taken
    is cut as `Q` says. -/
inductive Rewrites (r : Regex) (Q : List Char → Cut → List Char → Prop) :
    List Char → List Char → List Piece → Prop
  | done {s : List Char} : Rewrites r Q s [] []
  | kept {s t : List Char} {c : Char} {P : List Piece} : r.first (lastOr none s) (c :: t) = none →
      Rewrites r Q (s ++ [c]) t P → Rewrites r Q s (c :: t) (.kept c :: P)
  | cut {s t : List Char} {x : Cut} {P : List Piece} : Q s x t →
      Rewrites r Q (s ++ x.text) t P → Rewrites r Q s (x.text ++ t) (x.pieces ++ P)

section
variable {r : Regex} {template : Match → List Char} {mark s t u v x a b h k : List Char} {c d : Char}
  {prev : Option Char} {P P' pa pb X Y : List Piece} {m : Match} {cls : CharClass} {min : ℕ}
  {Q : List Char → Cut → List Char → Prop}

/-! ### Pieces -/

@[simp] theorem source_nil : source [] = [] := rfl

@[simp] theorem source_kept (c : Char) (P : List Piece) : source (.kept c :: P) = c :: source P := rfl

@[simp] theorem source_hidden (v : List Char) (P : List Piece) :
    source (.hidden v :: P) = v ++ source P := rfl

@[simp] theorem written_nil : written mark [] = [] := rfl

@[simp] theorem written_kept (c : Char) (P : List Piece) :
    written mark (.kept c :: P) = c :: written mark P := rfl

@[simp] theorem written_hidden (v : List Char) (P : List Piece) :
    written mark (.hidden v :: P) = mark ++ written mark P := rfl

@[simp] theorem source_append : ∀ P P' : List Piece, source (P ++ P') = source P ++ source P'
  | [], _ => rfl
  | .kept c :: P, P' => by simp [source, source_append P P']
  | .hidden v :: P, P' => by simp [source, source_append P P']

@[simp] theorem written_append : ∀ P P' : List Piece,
    written mark (P ++ P') = written mark P ++ written mark P'
  | [], _ => rfl
  | .kept c :: P, P' => by simp [written, written_append P P']
  | .hidden v :: P, P' => by simp [written, written_append P P']

@[simp] theorem source_keep : ∀ t : List Char, source (keep t) = t
  | [] => rfl
  | c :: t => congrArg (c :: ·) (source_keep t)

@[simp] theorem written_keep : ∀ t : List Char, written mark (keep t) = t
  | [] => rfl
  | c :: t => congrArg (c :: ·) (written_keep t)

@[simp] theorem keep_append (s t : List Char) : keep (s ++ t) = keep s ++ keep t := List.map_append

@[simp] theorem keep_cons (c : Char) (t : List Char) : keep (c :: t) = .kept c :: keep t := rfl

@[simp] theorem keep_nil : keep [] = [] := rfl

@[simp] theorem length_keep (t : List Char) : (keep t).length = t.length := List.length_map ..

@[simp] theorem source_pieces (x : Cut) : source x.pieces = x.text := by
  simp [Cut.pieces, Cut.text, source]

/-- What is kept before a hidden stretch. -/
theorem keep_append_eq : ∀ {t : List Char} {pa : List Piece}, keep t ++ X = pa ++ .hidden v :: Y →
    ∃ z, pa = keep t ++ z ∧ X = z ++ .hidden v :: Y
  | [], pa, hX => ⟨pa, rfl, hX⟩
  | c :: t, [], hX => by cases hX
  | c :: t, p :: pa, hX => by
      obtain ⟨rfl, hrest⟩ := List.cons.inj hX
      obtain ⟨z, rfl, hz⟩ := keep_append_eq hrest
      exact ⟨z, rfl, hz⟩

/-- What is kept does not go over a hidden stretch. -/
theorem keep_within : ∀ {h t : List Char}, keep h ++ X = keep t ++ .hidden v :: Y →
    ∃ k, t = h ++ k ∧ X = keep k ++ .hidden v :: Y
  | [], t, hX => ⟨t, rfl, hX⟩
  | c :: h, [], hX => by cases hX
  | c :: h, d :: t, hX => by
      obtain ⟨hc, hrest⟩ := List.cons.inj hX
      obtain ⟨k, rfl, hk⟩ := keep_within hrest
      exact ⟨k, by rw [(Piece.kept.inj hc : c = d)]; rfl, hk⟩

/-- The beginning of what is kept. -/
theorem keep_split : ∀ {t : List Char} {pa : List Piece}, keep t ++ X = pa ++ Y →
    pa.length ≤ t.length → ∃ u k, t = u ++ k ∧ pa = keep u ∧ Y = keep k ++ X
  | t, [], hX, _ => ⟨[], t, rfl, rfl, hX.symm⟩
  | [], p :: pa, _, hlength => by simp at hlength
  | c :: t, p :: pa, hX, hlength => by
      obtain ⟨rfl, hrest⟩ := List.cons.inj hX
      obtain ⟨u, k, rfl, rfl, hY⟩ := keep_split hrest (by simpa using hlength)
      exact ⟨c :: u, k, rfl, rfl, hY⟩

/-! ### The pieces of a substitution -/

theorem lastOr_append (prev : Option Char) (s t : List Char) :
    lastOr prev (s ++ t) = lastOr (lastOr prev s) t := by
  simp only [lastOr, List.getLast?_append, Option.or_assoc]

theorem exists_rewrites (hcut : ∀ s t m, Takes r template s t m → ∃ x t', t = x.text ++ t' ∧
      x.text ≠ [] ∧ m.text = x.text ∧ template m = x.before ++ mark ++ x.after ∧ Q s x t') :
    ∀ (n : ℕ) (s t : List Char), t.length ≤ n → (r.scan template t 0 none s).reach = 0 →
      ∃ P, Rewrites r Q s t P ∧ written mark P = (r.subn template 0 (lastOr none s) t).1
  | _, s, [], _, _ => ⟨[], .done, by simp [written, subn]⟩
  | 0, _, _ :: _, hn, _ => by simp at hn
  | n + 1, s, c :: t, hn, hreach => by
      cases hfirst : r.first (lastOr none s) (c :: t) with
      | none =>
        have hnone : (r.scan template t 0 none (s ++ [c])).reach = 0 := by
          rw [scan_append, List.singleton_append, hreach, scan_cons_of_none (by simpa using hfirst)]
          rfl
        obtain ⟨P, hP, hwritten⟩ := exists_rewrites hcut n (s ++ [c]) t (by simpa using hn) hnone
        refine ⟨.kept c :: P, .kept hfirst hP, ?_⟩
        rw [written, hwritten, subn, hfirst, lastOr_append]
        rfl
      | some m =>
        obtain ⟨x, t', ht, hne, htext, htemplate, hQ⟩ := hcut s (c :: t) m ⟨hreach, hfirst⟩
        obtain ⟨text, groups⟩ := m
        obtain rfl : text = x.text := htext
        rw [ht] at hfirst hreach hn ⊢
        have htaken : r.scan template t' 0 (lastOr none s) x.text = ⟨template ⟨x.text, groups⟩, 0⟩ :=
          scan_of_first hne hfirst
        have hpast : (r.scan template t' 0 none (s ++ x.text)).reach = 0 := by
          rw [scan_append, hreach, htaken]
        have hlength := List.length_pos_iff.mpr hne
        obtain ⟨P, hP, hwritten⟩ := exists_rewrites hcut n (s ++ x.text) t'
          (by rw [List.length_append] at hn; omega) hpast
        refine ⟨x.pieces ++ P, .cut hQ hP, ?_⟩
        rw [subn_append_of htaken, htemplate, written_append, hwritten, lastOr_append]
        simp [Cut.pieces, written]

theorem Rewrites.source (hP : Rewrites r Q s t P) : source P = t := by
  induction hP with
  | done => rfl
  | kept _ _ ih => rw [Regex.source, ih]
  | cut _ _ ih => rw [source_append, source_pieces, ih]

/-- At a character that is kept no match begins, or it is kept of a match. -/
theorem Rewrites.kept_at (hP : Rewrites r Q s t P) : ∀ {pa : List Piece}, P = pa ++ .kept c :: pb →
    r.first (lastOr none (s ++ Regex.source pa)) (c :: Regex.source pb) = none ∨
      ∃ pa' pu x P', pa = pa' ++ pu ∧ pu.length < x.pieces.length ∧
        x.pieces ++ P' = pu ++ .kept c :: pb ∧ Q (s ++ Regex.source pa') x (Regex.source P') := by
  induction hP with
  | done => simp
  | @kept s t d P hnone hP ih =>
    intro pa hpieces
    cases pa with
    | nil =>
      obtain ⟨hd, rfl⟩ := List.cons.inj hpieces
      obtain rfl := Piece.kept.inj hd
      rw [hP.source]
      exact .inl (by simpa [Regex.source] using hnone)
    | cons p pa =>
      obtain ⟨rfl, hrest⟩ := List.cons.inj hpieces
      rcases ih hrest with hnone | ⟨pa', pu, x, P', rfl, hlength, hx, hQ⟩
      · exact .inl (by simpa [Regex.source] using hnone)
      · exact .inr ⟨.kept d :: pa', pu, x, P', rfl, hlength, hx, by simpa [Regex.source] using hQ⟩
  | @cut s t x P hQ hP ih =>
    intro pa hpieces
    by_cases hlength : pa.length < x.pieces.length
    · refine .inr ⟨[], pa, x, P, rfl, hlength, hpieces, ?_⟩
      rw [hP.source]
      simpa [Regex.source] using hQ
    · obtain ⟨z, rfl, hrest⟩ : ∃ z, pa = x.pieces ++ z ∧ P = z ++ .kept c :: pb := by
        rcases List.append_eq_append_iff.mp hpieces with ⟨z, hz, hrest⟩ | ⟨z, hz, hrest⟩
        · exact ⟨z, hz, hrest⟩
        · cases z with
          | nil => exact ⟨[], by rw [hz]; simp, by simpa using hrest.symm⟩
          | cons p z => exact absurd (by rw [hz]; simp) hlength
      rcases ih hrest with hnone | ⟨pa', pu, y, P', rfl, hlength, hy, hQ⟩
      · exact .inl (by simpa using hnone)
      · exact .inr ⟨x.pieces ++ pa', pu, y, P', by simp, hlength, hy, by simpa using hQ⟩

/-- What is hidden is the core of a match. -/
theorem Rewrites.hidden_at (hP : Rewrites r Q s t P) : ∀ {pa : List Piece}, P = pa ++ .hidden v :: pb →
    ∃ pa' x P', pa = pa' ++ keep x.before ∧ v = x.core ∧ pb = keep x.after ++ P' ∧
      Q (s ++ Regex.source pa') x (Regex.source P') := by
  induction hP with
  | done => simp
  | @kept s t d P hnone hP ih =>
    intro pa hpieces
    cases pa with
    | nil => cases hpieces
    | cons p pa =>
      obtain ⟨rfl, hrest⟩ := List.cons.inj hpieces
      obtain ⟨pa', x, P', rfl, hv, hpb, hQ⟩ := ih hrest
      exact ⟨.kept d :: pa', x, P', rfl, hv, hpb, by simpa [Regex.source] using hQ⟩
  | @cut s t x P hQ hP ih =>
    intro pa hpieces
    rw [Cut.pieces, List.append_assoc] at hpieces
    obtain ⟨z, rfl, hz⟩ := keep_append_eq hpieces
    cases z with
    | nil =>
      obtain ⟨hv, rfl⟩ := List.cons.inj hz
      exact ⟨[], x, P, by simp, (Piece.hidden.inj hv).symm, rfl,
        by simpa [Regex.source, hP.source] using hQ⟩
    | cons p z =>
      obtain ⟨rfl, hrest⟩ := List.cons.inj hz
      obtain ⟨w, rfl, hw⟩ := keep_append_eq hrest
      obtain ⟨pa', y, P', rfl, hv, hpb, hQ⟩ := ih hw
      exact ⟨x.pieces ++ pa', y, P', by simp [Cut.pieces], hv, hpb, by simpa using hQ⟩

/-! ### What the output has of the text -/

/-- No stretch of the output with these characters has a part of a mark in it. -/
def Foreign (mark h : List Char) : Prop :=
  (∀ c ∈ mark.head?, c ∉ h) ∧ (∀ c ∈ mark.getLast?, c ∉ h) ∧ ∃ c ∈ h, c ∉ mark

theorem keep_of_written (hmark : mark ≠ []) : ∀ {h : List Char} {P : List Piece},
    (∀ c ∈ mark.head?, c ∉ h) → written mark P = h ++ b →
      ∃ pb, P = keep h ++ pb ∧ written mark pb = b
  | [], P, _, hP => ⟨P, rfl, hP⟩
  | c :: h, [], _, hP => by cases hP
  | c :: h, .kept d :: P, hhead, hP => by
      obtain ⟨rfl, hrest⟩ := List.cons.inj hP
      obtain ⟨pb, rfl, hpb⟩ := keep_of_written hmark
        (fun e he hmem => hhead e he (List.mem_cons_of_mem d hmem)) hrest
      exact ⟨pb, rfl, hpb⟩
  | c :: h, .hidden v :: P, hhead, hP => by
      cases mark with
      | nil => exact absurd rfl hmark
      | cons d mark =>
        obtain ⟨rfl, -⟩ := List.cons.inj hP
        exact absurd (List.mem_cons_self ..) (hhead d rfl)

/-- Such a stretch of the output was kept. -/
theorem exists_keep (hmark : mark ≠ []) (hh : Foreign mark h) : ∀ {P : List Piece} {a : List Char},
    written mark P = a ++ (h ++ b) →
      ∃ pa pb, P = pa ++ (keep h ++ pb) ∧ written mark pa = a ∧ written mark pb = b
  | [], a, hP => by
      obtain ⟨c, hc, -⟩ := hh.2.2
      obtain ⟨rfl, -⟩ := List.append_eq_nil_iff.mp (List.append_eq_nil_iff.mp hP.symm).2
      cases hc
  | P, [], hP => by
      obtain ⟨pb, rfl, hpb⟩ := keep_of_written hmark hh.1 hP
      exact ⟨[], pb, rfl, rfl, hpb⟩
  | .kept d :: P, c :: a, hP => by
      obtain ⟨rfl, hrest⟩ := List.cons.inj hP
      obtain ⟨pa, pb, rfl, rfl, hpb⟩ := exists_keep hmark hh hrest
      exact ⟨.kept d :: pa, pb, rfl, rfl, hpb⟩
  | .hidden v :: P, c :: a, hP => by
      have hcons : ∀ {z : List Char}, c :: a = mark ++ z → written mark P = z ++ (h ++ b) →
          ∃ pa pb, .hidden v :: P = pa ++ (keep h ++ pb) ∧ written mark pa = c :: a ∧
            written mark pb = b := by
        intro z hz hrest
        obtain ⟨pa, pb, rfl, rfl, hpb⟩ := exists_keep hmark hh hrest
        exact ⟨.hidden v :: pa, pb, rfl, hz.symm, hpb⟩
      rcases List.append_eq_append_iff.mp (hP : mark ++ written mark P = (c :: a) ++ (h ++ b)) with
        ⟨z, hz, hrest⟩ | ⟨z, hz, hrest⟩
      · exact hcons hz hrest
      · rcases List.eq_nil_or_concat z with rfl | ⟨z, e, rfl⟩
        · exact hcons (z := []) (by simpa using hz.symm) (by simpa using hrest.symm)
        · -- the stretch begins in the mark: it ends in it, or has the end of it
          have hlast : mark.getLast? = some e := by
            rw [hz, List.concat_eq_append, ← List.append_assoc, List.getLast?_concat]
          rcases List.append_eq_append_iff.mp hrest with ⟨y, hy, -⟩ | ⟨y, hy, -⟩
          · obtain ⟨f, hf, hnot⟩ := hh.2.2
            exact absurd (by rw [hz, hy]; simp [hf]) hnot
          · exact absurd (by rw [hy]; simp) (hh.2.1 e hlast)

/-- What comes before a character that is not hidden was kept, if nothing in between can be hidden. -/
theorem keep_until {B : List Char → Prop} (hB : ∀ pa v pb, P = pa ++ .hidden v :: pb → B (source pa)) :
    ∀ {w : List Char} (pa : List Piece) {pb : List Piece}, P = pa ++ pb →
      (∀ u, u <+: w → ¬ B (source pa ++ u)) →
      written mark pb = w ++ d :: b → ∃ pb', pb = keep w ++ .kept d :: pb' ∧ written mark pb' = b
  | w, pa, [], _, _, hpb => by
      obtain ⟨-, hnil⟩ := List.append_eq_nil_iff.mp hpb.symm
      cases hnil
  | w, pa, .hidden v :: pb, hP, hw, _ =>
      absurd (hB pa v pb hP) (by simpa using hw [] List.nil_prefix)
  | [], pa, .kept e :: pb, _, _, hpb => by
      obtain ⟨rfl, hb⟩ := List.cons.inj hpb
      exact ⟨pb, rfl, hb⟩
  | c :: w, pa, .kept e :: pb, hP, hw, hpb => by
      obtain ⟨rfl, hrest⟩ := List.cons.inj hpb
      obtain ⟨pb', rfl, hb⟩ := keep_until hB (pa ++ [.kept e]) (by rw [hP]; simp)
        (fun u hu => by simpa [source] using hw (e :: u) (List.cons_prefix_cons.mpr ⟨rfl, hu⟩)) hrest
      exact ⟨pb', rfl, hb⟩

/-! ### A run behind a head -/

/-- The pattern keeps a head and hides the run behind it: `H prev h` says that `h` is a head with `prev`
    before it. -/
structure HeadRun (r : Regex) (template : Match → List Char) (mark : List Char) (cls : CharClass)
    (min : ℕ) (H : Option Char → List Char → Prop) : Prop where
  sound : ∀ {prev s m}, r.first prev s = some m → ∃ h b, s = h ++ b ∧ H prev h ∧
    m.text = h ++ b.takeWhile cls ∧ min ≤ (b.takeWhile cls).length ∧ template m = h ++ mark
  complete : ∀ {prev h b}, H prev h → min ≤ (b.takeWhile cls).length → r.first prev (h ++ b) ≠ none
  foreign : ∀ {prev h}, H prev h → Foreign mark h
  nested : ∀ {prev prev' u h k}, H prev h → H prev' (u ++ (h ++ k)) → ∀ c ∈ k.head?, cls c = false
  pos : 0 < min

variable {R Q' : Regex} {groups : List Char → List (ℕ × List Char)}

/-- A match of a sequence that ends with a run. -/
theorem split_of_run (hQ : IsRun Q' cls min groups) (hm : (seq R Q').first prev s = some m) :
    ∃ a ∈ R.allMatches prev s, ∃ b, s = a.text ++ b ∧ min ≤ (b.takeWhile cls).length ∧
      m = ⟨a.text ++ b.takeWhile cls, a.groups ++ groups (b.takeWhile cls)⟩ := by
  rw [first_eq_runFrom] at hm
  obtain ⟨a, ha, hm⟩ := List.exists_of_findSome?_eq_some hm
  obtain ⟨⟨b, hb⟩, -⟩ := text_of_mem ha
  rw [runFrom, ← hb, List.drop_left, hQ] at hm
  split at hm
  · rename_i hmin
    exact ⟨a, ha, b, hb.symm, hmin, (Option.some.inj hm).symm⟩
  · cases hm

theorem first_ne_none_of_run (hQ : IsRun Q' cls min groups) {a : Match}
    (ha : a ∈ R.allMatches prev (a.text ++ b)) (hmin : min ≤ (b.takeWhile cls).length) :
    (seq R Q').first prev (a.text ++ b) ≠ none := by
  have hrun := hQ (lastOr prev a.text) b
  rw [if_pos hmin] at hrun
  intro hnone
  exact first_eq_none.mp hnone _ (mem_seq_of ha (by rw [List.drop_left]; exact first_mem hrun))

/-- Every run behind a head is the mark. -/
def Settled (H : Option Char → List Char → Prop) (cls : CharClass) (min : ℕ) (mark x : List Char) :
    Prop := ∀ a h b, x = a ++ (h ++ b) → H (lastOr none a) h → min ≤ (b.takeWhile cls).length →
  b.takeWhile cls = mark

/-- How such a match is cut. -/
def RunCut (H : Option Char → List Char → Prop) (cls : CharClass) (min : ℕ) (s : List Char) (x : Cut)
    (t : List Char) : Prop :=
  H (lastOr none s) x.before ∧ x.after = [] ∧ (x.core ++ t).takeWhile cls = x.core ∧
    min ≤ x.core.length

variable {H : Option Char → List Char → Prop}

/-- A substitution that writes what it matches. -/
theorem subn_eq_self (hne : ∀ t, r.Describes t → t ≠ [])
    (hself : ∀ s t m, x = s ++ t → r.first (lastOr none s) t = some m → template m = m.text) :
    ∀ (n : ℕ) (s t : List Char), t.length ≤ n → x = s ++ t →
      (r.subn template 0 (lastOr none s) t).1 = t
  | _, _, [], _, _ => by simp [subn]
  | 0, _, _ :: _, hn, _ => by simp at hn
  | n + 1, s, c :: t, hn, hx => by
      cases hfirst : r.first (lastOr none s) (c :: t) with
      | none =>
        have hrest := subn_eq_self hne hself n (s ++ [c]) t (by simpa using hn) (by simpa using hx)
        rw [lastOr_append] at hrest
        rw [subn, hfirst]
        exact congrArg (c :: ·) hrest
      | some m =>
        obtain ⟨⟨t', ht⟩, hdescribes⟩ := text_of_mem (first_mem hfirst)
        have hm := hself s (c :: t) m hx hfirst
        obtain ⟨text, groups⟩ := m
        rw [← ht] at hfirst hn hx ⊢
        have hlength : 0 < text.length := List.length_pos_iff.mpr (hne text hdescribes)
        have hrest := subn_eq_self hne hself n (s ++ text) t'
          (by simp only [List.length_append] at hn; omega) (by simpa using hx)
        rw [subn_append_of (scan_of_first (hne text hdescribes) hfirst), hm, ← lastOr_append, hrest]

theorem HeadRun.subn_eq_self (hr : HeadRun r template mark cls min H)
    (hne : ∀ t, r.Describes t → t ≠ []) (hx : Settled H cls min mark x) :
    (r.subn template 0 none x).1 = x := by
  refine Regex.subn_eq_self hne (fun s t m hst hfirst => ?_) x.length [] x le_rfl rfl
  obtain ⟨h, b, rfl, hh, htext, hmin, htemplate⟩ := hr.sound hfirst
  rw [htemplate, htext, hx s h b hst hh hmin]

theorem HeadRun.exists_rewrites (hr : HeadRun r template mark cls min H) (x : List Char) :
    ∃ P, Rewrites r (RunCut H cls min) [] x P ∧ written mark P = (r.subn template 0 none x).1 := by
  refine Regex.exists_rewrites (fun s t m hm => ?_) x.length [] x le_rfl rfl
  obtain ⟨h, b, rfl, hh, htext, hmin, htemplate⟩ := hr.sound hm.2
  refine ⟨⟨h, b.takeWhile cls, []⟩, b.dropWhile cls, by simp [Cut.text], fun hnil => ?_,
    by simp [Cut.text, htext], by simp [htemplate], hh, rfl, by simp, hmin⟩
  simp only [Cut.text, List.append_nil] at hnil
  rw [(List.append_eq_nil_iff.mp hnil).2] at hmin
  exact absurd hmin (Nat.not_le.mpr hr.pos)

/-- Behind a head that is kept of a match comes the mark, or no run. -/
theorem HeadRun.written_of_cut (hr : HeadRun r template mark cls min H) {y : Cut} {pu : List Piece}
    (hy : RunCut H cls min s y t) (hh : H prev h)
    (hpieces : y.pieces ++ P' = pu ++ (keep h ++ pb)) (hlength : pu.length < y.pieces.length) :
    (∀ c ∈ (written mark pb).head?, cls c = false) ∨ pb = .hidden y.core :: P' := by
  obtain ⟨hbefore, hafter, -, -⟩ := hy
  rw [Cut.pieces, hafter] at hpieces hlength
  simp only [keep_nil, List.append_assoc, List.singleton_append, List.length_append, length_keep,
    List.length_singleton] at hpieces hlength
  obtain ⟨u, k, hsplit, -, hrest⟩ := keep_split hpieces (by omega)
  obtain ⟨k, rfl, rfl⟩ := keep_within hrest
  cases k with
  | nil => exact .inr rfl
  | cons c k =>
    refine .inl (fun d hd => ?_)
    obtain rfl : c = d := by simpa [written] using hd
    exact hr.nested hh (hsplit ▸ hbefore) c rfl

theorem head?_written {n : ℕ} (hmin : 0 < n)
    (hhidden : ∀ v X, pb = .hidden v :: X → n ≤ v.length ∧ ∀ c ∈ v, cls c = true)
    (hsource : ∀ c ∈ (source pb).head?, cls c = false) :
    ∀ c ∈ (written mark pb).head?, cls c = false := by
  cases pb with
  | nil => simp [written]
  | cons p pb =>
    cases p with
    | kept c => simpa [written, source] using hsource
    | hidden v =>
      obtain ⟨hlength, hall⟩ := hhidden v pb rfl
      cases v with
      | nil => simp at hlength; omega
      | cons c v => exact absurd ((hsource c rfl).symm.trans (hall c (by simp))) (by simp)

theorem takeWhile_of_head? {n : ℕ} (h : ∀ c ∈ t.head?, cls c = false) (hmin : 0 < n) :
    ¬ n ≤ (t.takeWhile cls).length ∧ ∀ s, (∀ c ∈ s, cls c = true) → (s ++ t).takeWhile cls = s := by
  have hnil : t.takeWhile cls = [] := by
    cases t with
    | nil => rfl
    | cons c t => exact List.takeWhile_cons_of_neg (by simp [h c rfl])
  refine ⟨by rw [hnil, List.length_nil]; omega, fun s hs => ?_⟩
  rw [List.takeWhile_append_of_pos hs, hnil, List.append_nil]

/-- Where a run of the output begins, one of the text that is as long begins too. -/
theorem min_le_source (hhidden : ∀ pa v X, pb = pa ++ .hidden v :: X →
      min ≤ v.length ∧ ∀ c ∈ v, cls c = true) : ∀ n ≤ min,
    n ≤ ((written mark pb).takeWhile cls).length → n ≤ ((source pb).takeWhile cls).length := by
  induction pb with
  | nil => simp [written, source]
  | cons p pb ih =>
    have ih := ih (fun pa v X hX => hhidden (p :: pa) v X (by rw [hX]; rfl))
    intro n hn hlength
    cases p with
    | kept c =>
      by_cases hc : cls c = true
      · simp only [written, source, List.takeWhile_cons_of_pos hc, List.length_cons] at hlength ⊢
        have := ih (n - 1) (by omega) (by omega)
        omega
      · simp only [written, List.takeWhile_cons_of_neg hc] at hlength
        exact hlength.trans (Nat.zero_le _)
    | hidden v =>
      obtain ⟨hmin, hall⟩ := hhidden [] v pb rfl
      rw [source, List.takeWhile_append_of_pos hall, List.length_append]
      omega

theorem head?_of_takeWhile (h : (s ++ t).takeWhile cls = s) : ∀ c ∈ t.head?, cls c = false := by
  intro c hc
  have hall : ∀ d ∈ s, cls d = true := fun d hd => List.mem_takeWhile_imp (h.symm ▸ hd)
  rw [List.takeWhile_append_of_pos hall] at h
  have hnil : t.takeWhile cls = [] := List.append_cancel_left (h.trans (List.append_nil s).symm)
  cases t with
  | nil => cases hc
  | cons d t =>
    obtain rfl : d = c := Option.some.inj hc
    by_contra hd
    rw [List.takeWhile_cons_of_pos (by simpa using hd)] at hnil
    cases hnil

/-- What is hidden of such a pattern is a run. -/
theorem Rewrites.core (hP : Rewrites r (RunCut H cls min) s x P) (pa : List Piece) (v : List Char)
    (pb : List Piece) (hX : P = pa ++ .hidden v :: pb) :
    min ≤ v.length ∧ ∀ c ∈ v, cls c = true := by
  obtain ⟨_, y, _, _, rfl, _, _, _, hcore, hlength⟩ := hP.hidden_at hX
  exact ⟨hlength, fun c hc => List.mem_takeWhile_imp (hcore.symm ▸ hc)⟩

/-- And it is all of it, in the output as well. -/
theorem Rewrites.head?_behind (hP : Rewrites r (RunCut H cls min) s x P) (hpos : 0 < min)
    (pa : List Piece) (v : List Char) (pb : List Piece) (hX : P = pa ++ .hidden v :: pb) :
    ∀ c ∈ (written mark pb).head?, cls c = false := by
  obtain ⟨pa', y, P', hpa, rfl, hpb, hcut⟩ := hP.hidden_at hX
  obtain ⟨-, hafter, hcore, -⟩ := hcut
  obtain rfl : pb = P' := by rw [hpb, hafter]; rfl
  exact head?_written hpos (fun w X hw => hP.core (pa ++ [.hidden y.core]) w X (by rw [hX, hw]; simp))
    (head?_of_takeWhile hcore)

/-- The output of such a pattern is settled: behind a head that was kept comes what its match has left,
    or else it would have matched. -/
theorem HeadRun.settled (hr : HeadRun r template mark cls min H) (hmark : mark ≠ [])
    (hclass : (∀ c ∈ mark, cls c = true) ∨ ∀ c ∈ mark.head?, cls c = false)
    (hP : Rewrites r (RunCut H cls min) [] x P)
    (hedge : ∀ pa h pb, P = pa ++ (keep h ++ pb) → H (lastOr none (written mark pa)) h →
      H (lastOr none (source pa)) h) :
    Settled H cls min mark (written mark P) := by
  intro a h b hx hh hmin
  obtain ⟨pa, pb, rfl, rfl, rfl⟩ := exists_keep hmark (hr.foreign hh) hx
  obtain ⟨c, h, rfl⟩ : ∃ c h', h = c :: h' := by
    obtain ⟨c, hc, -⟩ := (hr.foreign hh).2.2
    exact List.exists_cons_of_ne_nil (List.ne_nil_of_mem hc)
  have hsplit : pa ++ (keep (c :: h) ++ pb) = pa ++ .kept c :: (keep h ++ pb) := rfl
  rcases hP.kept_at hsplit with hnone | ⟨pa', pu, y, P', rfl, hlength, hpieces, hcut⟩
  · have hsource := min_le_source (fun qa v X hX => hP.core (pa ++ (keep (c :: h) ++ qa)) v X
      (by rw [hX]; simp)) min le_rfl hmin
    exact absurd (by simpa using hnone) (hr.complete (hedge pa (c :: h) pb rfl hh) hsource)
  · rcases hr.written_of_cut hcut hh hpieces hlength with hhead | rfl
    · exact absurd hmin (takeWhile_of_head? hhead hr.pos).1
    · have hrest : ∀ c ∈ (written mark P').head?, cls c = false :=
        hP.head?_behind hr.pos (pa' ++ pu ++ keep (c :: h)) y.core P' (by simp)
      rw [written] at hmin ⊢
      rcases hclass with hall | hnot
      · exact (takeWhile_of_head? hrest hr.pos).2 mark hall
      · refine absurd hmin (takeWhile_of_head? (fun c hc => hnot c ?_) hr.pos).1
        cases mark with
        | nil => exact absurd rfl hmark
        | cons d mark => exact hc

/-! ### Another substitution -/

/-- Nothing is hidden right behind a character of a mark, unless it goes on with another one. -/
def Unbroken (mark : List Char) (cls : CharClass) (P : List Piece) : Prop :=
  ∀ pa v pb, P = pa ++ .hidden v :: pb →
    (∀ c ∈ (source pa).getLast?, c ∉ mark) ∨ ∃ c ∈ v.head?, c ∉ mark ∧ cls c = true

/-- Of a mark in the text nothing is hidden. -/
theorem takeWhile_written (hunbroken : Unbroken mark cls P) : ∀ {pb : List Piece} (pa : List Piece),
    P = pa ++ pb → (∃ c ∈ (source pa).getLast?, c ∈ mark) →
    (∀ c ∈ (source pb).takeWhile cls, c ∈ mark) →
      (written mark pb).takeWhile cls = (source pb).takeWhile cls
  | [], _, _, _, _ => rfl
  | .kept c :: pb, pa, hP, _, hmem => by
      by_cases hc : cls c = true
      · simp only [written, source, List.takeWhile_cons_of_pos hc] at hmem ⊢
        rw [takeWhile_written hunbroken (pa ++ [.kept c]) (by rw [hP]; simp)
          ⟨c, by simp [source], hmem c (List.mem_cons_self ..)⟩
          (fun d hd => hmem d (List.mem_cons_of_mem c hd))]
      · simp only [written, source, List.takeWhile_cons_of_neg hc]
  | .hidden v :: pb, pa, hP, hlast, hmem => by
      obtain ⟨d, hd, hin⟩ := hlast
      rcases hunbroken pa v pb hP with hnot | ⟨c, hc, hnot, hcls⟩
      · exact absurd hin (hnot d hd)
      · cases v with
        | nil => cases hc
        | cons e v =>
          obtain rfl : e = c := Option.some.inj hc
          refine absurd (hmem e ?_) hnot
          rw [source, List.cons_append, List.takeWhile_cons_of_pos hcls]
          exact List.mem_cons_self ..

/-- A run without a mark is one of the text. -/
theorem takeWhile_within (hmark : mark ≠ []) (hnot : ∀ c ∈ mark.head?, cls c = false) :
    ∀ P : List Piece, (written mark P).takeWhile cls <+: (source P).takeWhile cls
  | [] => List.prefix_rfl
  | .kept c :: P => by
      by_cases hc : cls c = true
      · simp only [written, source, List.takeWhile_cons_of_pos hc, List.cons_prefix_cons, true_and]
        exact takeWhile_within hmark hnot P
      · simp only [written, List.takeWhile_cons_of_neg hc, List.nil_prefix]
  | .hidden v :: P => by
      cases mark with
      | nil => exact absurd rfl hmark
      | cons d mark =>
        rw [written, List.cons_append, List.takeWhile_cons_of_neg (by simp [hnot d rfl])]
        exact List.nil_prefix

/-- Another substitution keeps a text settled, if it does so behind the heads that a hidden stretch
    follows (`hnext`). -/
theorem Settled.written (hx : Settled H cls min mark (source P)) (hmark : mark ≠ [])
    (hforeign : ∀ prev h, H prev h → Foreign mark h) (hpos : 0 < min)
    (hshort : min = 1 ∨ ∀ c ∈ mark.head?, cls c = false)
    (hedge : ∀ pa h pb, P = pa ++ (keep h ++ pb) → H (lastOr none (Regex.written mark pa)) h →
      H (lastOr none (source pa)) h)
    (hunbroken : Unbroken mark cls P)
    (hnext : ∀ pa h v pb, P = pa ++ (keep h ++ .hidden v :: pb) → H (lastOr none (source pa)) h →
      min ≤ ((mark ++ Regex.written mark pb).takeWhile cls).length →
        (mark ++ Regex.written mark pb).takeWhile cls = mark) :
    Settled H cls min mark (Regex.written mark P) := by
  intro a h b hwritten hh hmin
  obtain ⟨pa, pb, rfl, rfl, rfl⟩ := exists_keep hmark (hforeign _ h hh) hwritten
  have hh := hedge pa h pb rfl hh
  cases pb with
  | nil => exact absurd hmin (by simp [Regex.written]; omega)
  | cons p pb =>
    cases p with
    | hidden v => exact hnext pa h v pb rfl hh hmin
    | kept c =>
      by_cases hc : cls c = true
      · have hsource : min ≤ ((source (.kept c :: pb)).takeWhile cls).length := by
          rcases hshort with rfl | hnot
          · simp [source, hc]
          · exact hmin.trans (takeWhile_within hmark hnot _).length_le
        have hrun := hx (source pa) h (source (.kept c :: pb)) (by simp) hh hsource
        simp only [Regex.written, source, List.takeWhile_cons_of_pos hc] at hrun ⊢
        rw [takeWhile_written hunbroken (pa ++ (keep h ++ [.kept c])) (by simp)
          ⟨c, by simp, by simp [← hrun]⟩ (fun d hd => hrun ▸ List.mem_cons_of_mem c hd), hrun]
      · simp only [Regex.written, List.takeWhile_cons_of_neg hc, List.length_nil] at hmin
        omega

/-! ### What comes through -/

/-- A character that is not in the mark becomes no more frequent. -/
theorem count_written (hc : c ∉ mark) : ∀ P : List Piece, (written mark P).count c ≤ (source P).count c
  | [] => Nat.le_refl _
  | .kept d :: P => by
      simp only [written_kept, source_kept, List.count_cons]
      exact Nat.add_le_add_right (count_written hc P) _
  | .hidden v :: P => by
      simp only [written_hidden, source_hidden, List.count_append, List.count_eq_zero_of_not_mem hc]
      exact (Nat.zero_add _).le.trans ((count_written hc P).trans (Nat.le_add_left ..))

theorem count_written_lt (hc : c ∉ mark) (hv : c ∈ v) (pa pb : List Piece) :
    (written mark (pa ++ .hidden v :: pb)).count c < (source (pa ++ .hidden v :: pb)).count c := by
  have hpos := List.count_pos_iff.mpr hv
  have hpa := count_written hc pa
  have hpb := count_written hc pb
  simp only [written_append, source_append, written_hidden, source_hidden, List.count_append,
    List.count_eq_zero_of_not_mem hc]
  omega

/-- A character of the text is kept or hidden. -/
theorem source_split : ∀ {P : List Piece} {a : List Char}, source P = a ++ c :: b →
    (∃ pa pb, P = pa ++ .kept c :: pb ∧ source pa = a ∧ source pb = b) ∨
      ∃ pa v pb, P = pa ++ .hidden v :: pb ∧ c ∈ v
  | [], a, h => by
      obtain ⟨-, hnil⟩ := List.append_eq_nil_iff.mp h.symm
      cases hnil
  | .kept d :: P, [], h => by
      obtain ⟨rfl, rfl⟩ := List.cons.inj h
      exact .inl ⟨[], P, rfl, rfl, rfl⟩
  | .kept d :: P, e :: a, h => by
      obtain ⟨rfl, hrest⟩ := List.cons.inj h
      rcases source_split hrest with ⟨pa, pb, rfl, rfl, rfl⟩ | ⟨pa, v, pb, rfl, hv⟩
      · exact .inl ⟨.kept d :: pa, pb, rfl, rfl, rfl⟩
      · exact .inr ⟨.kept d :: pa, v, pb, rfl, hv⟩
  | .hidden v :: P, a, h => by
      rcases List.append_eq_append_iff.mp (h : v ++ source P = a ++ c :: b) with
        ⟨z, rfl, hrest⟩ | ⟨z, rfl, hrest⟩
      · rcases source_split hrest with ⟨pa, pb, rfl, rfl, rfl⟩ | ⟨pa, w, pb, rfl, hw⟩
        · exact .inl ⟨.hidden v :: pa, pb, rfl, rfl, rfl⟩
        · exact .inr ⟨.hidden v :: pa, w, pb, rfl, hw⟩
      · cases z with
        | nil =>
          rcases source_split (a := []) hrest.symm with ⟨pa, pb, rfl, hnil, rfl⟩ | ⟨pa, w, pb, rfl, hw⟩
          · exact .inl ⟨.hidden a :: pa, pb, by simp, by simp [hnil], rfl⟩
          · exact .inr ⟨.hidden (a ++ []) :: pa, w, pb, rfl, hw⟩
        | cons d z =>
          obtain ⟨rfl, -⟩ := List.cons.inj hrest
          exact .inr ⟨[], a ++ c :: z, P, rfl, by simp⟩

/-- What comes before a kept character of a run, as part of it, is kept. -/
theorem Rewrites.keep_before (hP : Rewrites r (RunCut H cls min) s x P) (hpos : 0 < min)
    (hc : cls c = true) : ∀ {w : List Char} {pa : List Piece}, P = pa ++ .kept c :: pb →
      Regex.source pa = a ++ w → (∀ d ∈ w, cls d = true) →
        ∃ pa', pa = pa' ++ keep w ∧ Regex.source pa' = a := by
  intro w
  induction w using List.reverseRecOn generalizing c pb with
  | nil => exact fun {pa} _ hpa _ => ⟨pa, by simp, by simpa using hpa⟩
  | append_singleton w d ih =>
    intro pa hsplit hpa hw
    rcases List.eq_nil_or_concat pa with rfl | ⟨pa, p, rfl⟩
    · exact absurd hpa (by simp)
    · rw [List.concat_eq_append] at hsplit hpa ⊢
      rw [List.append_assoc, List.singleton_append] at hsplit
      cases p with
      | hidden v =>
        have hhead : ∀ d ∈ (written [] (.kept c :: pb)).head?, cls d = false :=
          hP.head?_behind hpos pa v (.kept c :: pb) hsplit
        exact absurd (hc.symm.trans (hhead c rfl)) (by simp)
      | kept e =>
        have hends : Regex.source pa ++ [e] = (a ++ w) ++ [d] := by simpa using hpa
        obtain ⟨hsource, hlast⟩ := List.append_inj' hends rfl
        obtain rfl : e = d := List.singleton_inj.mp hlast
        obtain ⟨pa', rfl, ha⟩ := ih (hw e (by simp)) hsplit hsource (fun f hf => hw f (by simp [hf]))
        exact ⟨pa', by simp, ha⟩

end

end Regex
