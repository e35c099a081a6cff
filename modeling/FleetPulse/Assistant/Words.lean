import FleetPulse.Assistant.Patterns
import FleetPulse.Lib.TwoTexts

/-! The first three patterns around a word: a stretch of the text without white space.

        … pre …  word  X        a match that begins before the word and gets to it takes the whole run
                                of its class from there (`endsAt_…`)

    Inside the word none begins without the white space or the sign that its pattern asks for. All
    four begin with a word character, so none begins with what ends the word. -/

namespace FleetPulse
open Regex

/-- What assignments and URLs are made of. -/
def formChar : CharClass := fun c => isAsciiAlnum c || ['-', '_', '+', '=', ':', '/', '@'].contains c

/-- A character in ASCII is one of 128. -/
theorem forall_ascii {p : Char → Prop} (h : ∀ n : Fin 128, p (Char.ofNat n)) (c : Char)
    (hc : c.toNat < 128) : p c := by
  have := h ⟨c.toNat, hc⟩
  rwa [Char.ofNat_toNat] at this

section
variable {tables : UnicodeTables} {r : Regex} {prev : Option Char} {s t u w X : List Char} {c d : Char}

/-! ### Characters -/

theorem ascii_of_formChar (h : formChar c = true) : c.toNat < 128 := by
  simp only [formChar, isAsciiAlnum, Bool.or_eq_true, Bool.and_eq_true, decide_eq_true_eq,
    List.contains_eq_mem, List.mem_cons, List.not_mem_nil, or_false] at h
  have hcode : ∀ {a b : Char}, a ≤ b → a.toNat ≤ b.toNat := fun hab => hab
  rcases h with ((⟨-, h⟩ | ⟨-, h⟩) | ⟨-, h⟩) | h
  · exact (hcode h).trans_lt (by decide)
  · exact (hcode h).trans_lt (by decide)
  · exact (hcode h).trans_lt (by decide)
  · rcases h with rfl | rfl | rfl | rfl | rfl | rfl | rfl <;> decide

theorem isSpace_of_formChar (h : formChar c = true) : tables.isSpace c = false := by
  have hnone : formChar c = true → (c = ' ' || (9 ≤ c.toNat && c.toNat ≤ 13) ||
      (28 ≤ c.toNat && c.toNat ≤ 31)) = false :=
    forall_ascii (p := fun c => formChar c = true → (c = ' ' || (9 ≤ c.toNat && c.toNat ≤ 13) ||
      (28 ≤ c.toNat && c.toNat ≤ 31)) = false) (by decide +kernel) c (ascii_of_formChar h)
  rw [tables.isSpace_ascii c (ascii_of_formChar h), hnone h]

theorem valueChar_of_formChar (h : formChar c = true) : valueChar tables c = true := by
  have hnone : formChar c = true → c ≠ ',' ∧ c ≠ ';' :=
    forall_ascii (p := fun c => formChar c = true → c ≠ ',' ∧ c ≠ ';') (by decide +kernel) c
      (ascii_of_formChar h)
  obtain ⟨hcomma, hsemicolon⟩ := hnone h
  simp [valueChar, isSpace_of_formChar h, hcomma, hsemicolon]

theorem tokenChar_of_formChar (h : formChar c = true) (hcolon : c ≠ ':') (hat : c ≠ '@') :
    tokenChar tables c = true := by
  have hall : formChar c = true → c ≠ ':' → c ≠ '@' →
      (isAsciiAlnum c || ['.', '_', '~', '+', '/', '=', '-'].contains c) = true :=
    forall_ascii (p := fun c => formChar c = true → c ≠ ':' → c ≠ '@' →
      (isAsciiAlnum c || ['.', '_', '~', '+', '/', '=', '-'].contains c) = true) (by decide +kernel) c
      (ascii_of_formChar h)
  rw [tokenChar_ascii (ascii_of_formChar h), hall h hcolon hat]

theorem isWord_eq_false (h : c ∈ ['=', ':', '@', '/', '-', '+', ' ']) : tables.isWord c = false := by
  have hnone : c ∈ ['=', ':', '@', '/', '-', '+', ' '] →
      c.toNat < 128 ∧ (isAsciiAlnum c || decide (c = '_')) = false := by
    intro h
    simp only [List.mem_cons, List.not_mem_nil, or_false] at h
    rcases h with rfl | rfl | rfl | rfl | rfl | rfl | rfl <;> decide
  obtain ⟨hascii, hword⟩ := hnone h
  rw [tables.isWord_ascii c hascii, hword]

/-! ### The first character -/

/-- Its matches begin with a word character. -/
def StartsWord (tables : UnicodeTables) (r : Regex) : Prop := ∀ t, r.Describes t →
  ∃ c x, t = c :: x ∧ tables.isWord c = true

theorem StartsWord.ne_nil (hr : StartsWord tables r) : ∀ t, r.Describes t → t ≠ [] := by
  intro t ht
  obtain ⟨c, x, rfl, -⟩ := hr t ht
  exact List.cons_ne_nil c x

theorem startsWord_letters {s : String} {p : Char} {ps : List Char} (hs : s.toList = p :: ps)
    (hp : p.isLower = true) : StartsWord tables (letters tables s) := by
  intro t h
  rw [letters, hs] at h
  cases h with
  | cons hc _ => exact ⟨_, _, rfl, tables.isWord_of_isLetter p _ hp hc⟩

/-- What letters describe is made of word characters. -/
theorem isWord_of_letters {str : String} (h : (letters tables str).Describes t)
    (hs : ∀ p ∈ str.toList, p.isLower = true) : ∀ c ∈ t, tables.isWord c = true := by
  simp only [letters, Describes, List.forall₂_map_left_iff] at h
  generalize str.toList = ps at h hs
  induction h with
  | nil => simp
  | @cons p c ps t hc _ ih =>
    intro d hd
    rcases List.mem_cons.mp hd with rfl | hd
    · exact tables.isWord_of_isLetter p d (hs p (by simp)) hc
    · exact ih (fun q hq => hs q (by simp [hq])) d hd

theorem startsWord_authorizationHeader : StartsWord tables (authorizationHeader tables) := by
  rintro t ⟨_, run, rfl, ⟨auth, _, rfl, hauth, -⟩, -⟩
  obtain ⟨c, x, rfl, hc⟩ := startsWord_letters (s := "authorization") rfl (by decide) auth hauth
  exact ⟨c, _, rfl, hc⟩

theorem startsWord_bearerToken : StartsWord tables (bearerToken tables) := by
  intro t h
  obtain ⟨bearer, ws, run, rfl, hbearer, -⟩ := bearerToken_parts h
  obtain ⟨c, x, rfl, hc⟩ := startsWord_letters (s := "bearer") rfl (by decide) bearer hbearer
  exact ⟨c, _, rfl, hc⟩

theorem startsWord_keyword : StartsWord tables (keyword tables) := by
  rintro t (⟨api, _, rfl, hapi, -⟩ | h | h | h | h)
  · obtain ⟨c, x, rfl, hc⟩ := startsWord_letters (s := "api") rfl (by decide) api hapi
    exact ⟨c, _, rfl, hc⟩
  · exact startsWord_letters (s := "token") rfl (by decide) t h
  · exact startsWord_letters (s := "password") rfl (by decide) t h
  · exact startsWord_letters (s := "passwd") rfl (by decide) t h
  · exact startsWord_letters (s := "secret") rfl (by decide) t h

theorem startsWord_assignment : StartsWord tables (assignment tables) := by
  rintro t ⟨_, run, rfl, ⟨_, _, rfl, rfl, key, _, rfl, hkey, -⟩, -⟩
  obtain ⟨c, x, rfl, hc⟩ := startsWord_keyword key hkey
  exact ⟨c, _, rfl, hc⟩

theorem startsWord_databaseUrl : StartsWord tables (databaseUrl tables) := by
  rintro t ⟨_, _, rfl, ⟨word, _, rfl, hword, -⟩, -⟩
  obtain ⟨c, x, rfl, hc⟩ := startsWord_letters (s := "postgres") rfl (by decide) word hword
  exact ⟨c, _, rfl, hc⟩

theorem first_eq_none_of_isWord (hr : StartsWord tables r) (hc : tables.isWord c = false) :
    r.first prev (c :: s) = none := by
  refine first_eq_none.mpr (fun m hm => ?_)
  obtain ⟨hpre, hdescribes⟩ := text_of_mem hm
  obtain ⟨d, x, htext, hd⟩ := hr m.text hdescribes
  rw [htext] at hpre
  obtain rfl := (List.cons_prefix_cons.mp hpre).1
  exact absurd (hd.symm.trans hc) (by simp)

/-- The text does not begin with a word character. -/
def Apart (tables : UnicodeTables) (X : List Char) : Prop :=
  ∀ c s, X = c :: s → tables.isWord c = false

theorem inert_of_apart (hr : StartsWord tables r) (hX : Apart tables X) : Inert r X := by
  rintro c s rfl prev
  exact first_eq_none_of_isWord hr (hX c s rfl)

/-! ### Header and bearer: white space before the run -/

/-- Its matches end with white space and have none of three signs. -/
def SpaceLast (tables : UnicodeTables) (R : Regex) : Prop := ∀ t, R.Describes t →
  (∃ x c, t = x ++ [c] ∧ tables.isSpace c = true) ∧ '=' ∉ t ∧ '@' ∉ t ∧ '/' ∉ t

theorem concat_of_spaces (h : (spaces tables 1).Describes t) :
    ∃ x c, t = x ++ [c] ∧ tables.isSpace c = true := by
  rcases List.eq_nil_or_concat t with rfl | ⟨x, c, rfl⟩
  · exact absurd h.1 (by simp)
  · exact ⟨x, c, by simp, h.2 c (by simp)⟩

theorem sign_not_mem_spaces {min : ℕ} (h : (spaces tables min).Describes t) :
    '=' ∉ t ∧ '@' ∉ t ∧ '/' ∉ t :=
  ⟨not_mem_spaces h (by decide) (by decide), not_mem_spaces h (by decide) (by decide),
    not_mem_spaces h (by decide) (by decide)⟩

theorem spaceLast_authorizationHeader : SpaceLast tables (authorizationHeader tables).before := by
  rintro t ⟨auth, _, rfl, hauth, ws, _, rfl, hws, colon, _, rfl, hcolon, ws', _, rfl, hws', bearer,
    ws'', rfl, hbearer, hws''⟩
  obtain rfl := describes_literal hcolon
  obtain ⟨x, c, rfl, hc⟩ := concat_of_spaces hws''
  have hmem : ∀ d : Char, d ≠ ':' → d ∉ auth → d ∉ ws → d ∉ ws' → d ∉ bearer → d ∉ x ++ [c] →
      d ∉ auth ++ (ws ++ (":".toList ++ (ws' ++ (bearer ++ (x ++ [c]))))) := by
    intro d hd h1 h2 h3 h4 h5
    simp only [List.mem_append, not_or] at h5 ⊢
    exact ⟨h1, h2, fun h => hd (List.mem_singleton.mp h), h3, h4, h5⟩
  refine ⟨⟨auth ++ (ws ++ (":".toList ++ (ws' ++ (bearer ++ x)))), c, by simp, hc⟩, ?_, ?_, ?_⟩
  · exact hmem '=' (by decide) (not_mem_letters hauth (by decide) (by decide))
      (sign_not_mem_spaces hws).1 (sign_not_mem_spaces hws').1
      (not_mem_letters hbearer (by decide) (by decide)) (sign_not_mem_spaces hws'').1
  · exact hmem '@' (by decide) (not_mem_letters hauth (by decide) (by decide))
      (sign_not_mem_spaces hws).2.1 (sign_not_mem_spaces hws').2.1
      (not_mem_letters hbearer (by decide) (by decide)) (sign_not_mem_spaces hws'').2.1
  · exact hmem '/' (by decide) (not_mem_letters hauth (by decide) (by decide))
      (sign_not_mem_spaces hws).2.2 (sign_not_mem_spaces hws').2.2
      (not_mem_letters hbearer (by decide) (by decide)) (sign_not_mem_spaces hws'').2.2

theorem spaceLast_bearerToken : SpaceLast tables (bearerToken tables).before := by
  rintro t ⟨_, _, rfl, rfl, bearer, ws, rfl, hbearer, hws⟩
  obtain ⟨x, c, rfl, hc⟩ := concat_of_spaces hws
  have hmem : ∀ d : Char, d ∉ bearer → d ∉ x ++ [c] → d ∉ [] ++ (bearer ++ (x ++ [c])) := by
    intro d h1 h2
    rw [List.nil_append, List.mem_append, not_or]
    exact ⟨h1, h2⟩
  exact ⟨⟨bearer ++ x, c, by simp, hc⟩,
    hmem '=' (not_mem_letters hbearer (by decide) (by decide)) (sign_not_mem_spaces hws).1,
    hmem '@' (not_mem_letters hbearer (by decide) (by decide)) (sign_not_mem_spaces hws).2.1,
    hmem '/' (not_mem_letters hbearer (by decide) (by decide)) (sign_not_mem_spaces hws).2.2⟩

/-- None begins in a stretch without white space that `=` or `@` ends. -/
theorem first_eq_none_of_spaceLast {R Q : Regex} (hR : SpaceLast tables R)
    (ht : ∀ c ∈ t, tables.isSpace c = false) (hd : d = '=' ∨ d = '@') :
    (seq R Q).first prev (t ++ d :: s) = none := by
  refine first_eq_none.mpr (fun m hm => ?_)
  obtain ⟨a, ha, -⟩ := mem_seq.mp hm
  obtain ⟨hpre, hdescribes⟩ := text_of_mem ha
  obtain ⟨⟨x, c, htext, hc⟩, hequals, hat, -⟩ := hR a.text hdescribes
  by_cases hle : a.text.length ≤ t.length
  · have hin : a.text <+: t := List.prefix_of_prefix_length_le hpre (List.prefix_append _ _) hle
    exact absurd (hc.symm.trans (ht c (hin.subset (by rw [htext]; simp)))) (by simp)
  · have hin : t ++ [d] <+: a.text :=
      List.prefix_of_prefix_length_le ⟨s, by simp⟩ hpre (by simp; omega)
    have hmem : d ∈ a.text := hin.subset (by simp)
    rcases hd with rfl | rfl
    · exact hequals hmem
    · exact hat hmem

theorem exists_of_prefix {a b : List Char} (h : a <+: t ++ c :: b) (hlength : t.length + 1 ≤ a.length) :
    ∃ y, a = t ++ c :: y ∧ y <+: b := by
  have hin : t ++ [c] <+: a :=
    List.prefix_of_prefix_length_le ⟨b, by simp⟩ h (by simpa using hlength)
  obtain ⟨y, rfl⟩ := hin
  refine ⟨y, by simp, ?_⟩
  rw [List.append_assoc, List.singleton_append, List.prefix_append_right_inj,
    List.cons_prefix_cons] at h
  exact h.2

/-- What such an expression matches does not go into a word with a sign. -/
theorem endsAt_of_spaceLast {R : Regex} {cls : CharClass} (hR : SpaceLast tables R)
    (hcls : cls ' ' = false) (hw : ∀ c ∈ w, formChar c = true) (hsign : '=' ∈ w ∨ '/' ∈ w) :
    EndsAt R cls ' ' prev t (w ++ X) := by
  intro a ha
  obtain ⟨hpre, hdescribes⟩ := text_of_mem ha
  obtain ⟨⟨x, c, htext, hc⟩, hequals, -, hslash⟩ := hR a.text hdescribes
  by_cases hle : a.text.length ≤ t.length
  · exact Or.inr ⟨hle, hcls⟩
  · obtain ⟨y, hy, hpre⟩ := exists_of_prefix hpre (by omega)
    cases List.eq_nil_or_concat y with
    | inl hnil =>
      subst hnil
      exact Or.inl (by rw [hy]; simp)
    | inr hconcat =>
      obtain ⟨y', c', rfl⟩ := hconcat
      have hlast : c = c' := by
        have hsame : x ++ [c] = (t ++ ' ' :: y') ++ [c'] := by rw [← htext, hy]; simp
        exact List.singleton_inj.mp (List.append_inj' hsame rfl).2
      rcases List.prefix_or_prefix_of_prefix hpre (List.prefix_append w X) with hin | hin
      · have hform := hw c (hin.subset (by rw [hlast]; simp))
        exact absurd (hc.symm.trans (isSpace_of_formChar hform)) (by simp)
      · have hmem : ∀ d ∈ w, d ∈ a.text := fun d hd => by
          rw [hy]
          exact List.mem_append_right t (List.mem_cons_of_mem ' ' (hin.subset hd))
        rcases hsign with hd | hd
        · exact absurd (hmem '=' hd) hequals
        · exact absurd (hmem '/' hd) hslash

/-! ### Assignment: a sign before the run -/

theorem not_mem_keyword (h : (keyword tables).Describes t)
    (hd : d ∈ [' ', ':', '=', '@', '/', '+', '[', ']']) : d ∉ t := by
  have hword : ∀ {s : String} {u : List Char}, (letters tables s).Describes u →
      (∀ p ∈ s.toList, p.isLower = true) → d ∉ u := by
    intro s u hu hs
    have hother : ∀ d ∈ [' ', ':', '=', '@', '/', '+', '[', ']'],
        d.toNat < 128 ∧ d.toLower.isLower = false := by
      decide
    refine not_mem_letters hu (hother d hd).1 (fun p hp => ⟨hs p hp, fun heq => ?_⟩)
    exact absurd (hs p hp) (by rw [← heq, (hother d hd).2]; simp)
  rcases h with ⟨api, _, rfl, hapi, sep, key, rfl, hsep, hkey⟩ | h | h | h | h
  · have hsepMem : d ∉ sep := by
      rcases hsep with hsep | hsep
      · cases hsep with
        | cons hc hnil =>
          cases hnil
          rintro (_ | ⟨_, hmem⟩)
          · simp only [List.mem_cons, List.not_mem_nil, or_false] at hd
            rcases hd with rfl | rfl | rfl | rfl | rfl | rfl | rfl | rfl <;> exact absurd hc (by decide)
          · cases hmem
      · rw [List.forall₂_nil_left_iff.mp hsep]
        exact List.not_mem_nil
    simp only [List.mem_append, not_or]
    exact ⟨hword hapi (by decide), hsepMem, hword hkey (by decide)⟩
  · exact hword h (by decide)
  · exact hword h (by decide)
  · exact hword h (by decide)
  · exact hword h (by decide)

theorem assignment_before (h : (assignment tables).before.Describes t) :
    ∃ key ws a ws', t = key ++ (ws ++ a :: ws') ∧ (keyword tables).Describes key ∧
      (spaces tables 0).Describes ws ∧ (a = ':' ∨ a = '=') ∧ (spaces tables 0).Describes ws' := by
  obtain ⟨_, _, rfl, rfl, key, _, rfl, hkey, _, _, rfl, rfl, ws, _, rfl, hws, sign, ws', rfl, hsign,
    hws'⟩ := h
  obtain ⟨a, rfl, ha⟩ : ∃ a, sign = [a] ∧ (a = ':' ∨ a = '=') := by
    cases hsign with
    | cons ha hnil =>
      cases hnil
      exact ⟨_, rfl, by simpa using ha⟩
  exact ⟨key, ws, a, ws', by simp, hkey, hws, ha, hws'⟩

/-- What it matches before the run does not go into a word. -/
theorem endsAt_assignment (hc : tables.isWord c = true) (hcolon : c ≠ ':') (hequals : c ≠ '=')
    {x : List Char} : EndsAt (assignment tables).before (valueChar tables) ' ' prev t (c :: x ++ X) := by
  intro a ha
  obtain ⟨hpre, hdescribes⟩ := text_of_mem ha
  obtain ⟨key, ws, sign, ws', htext, hkey, hws, hsign, hws'⟩ := assignment_before hdescribes
  have hspace : ∀ {ws : List Char}, (spaces tables 0).Describes ws → c ∉ ws := fun hws hmem =>
    absurd (hc.symm.trans (tables.isWord_of_isSpace c (hws.2 c hmem))) (by simp)
  by_cases hle : a.text.length ≤ t.length
  · exact Or.inr ⟨hle, by simp [valueChar, isSpace_blank]⟩
  · by_cases hend : a.text.length = t.length + 1
    · exact Or.inl hend
    · exfalso
      have hin : t ++ ([' '] ++ [c]) <+: a.text :=
        List.prefix_of_prefix_length_le ⟨x ++ X, by simp⟩ hpre (by simp; omega)
      have hword : [' '] ++ [c] <:+: key ++ (ws ++ sign :: ws') :=
        htext ▸ (List.suffix_append t _).isInfix.trans hin.isInfix
      refine not_infix_append (fun hkeyBlank => ?_) ?_ hword
      · exact not_mem_keyword (d := ' ') hkey (by simp) (hkeyBlank.subset (by simp))
      · rw [List.mem_append, List.mem_cons, not_or, not_or]
        refine ⟨hspace hws, ?_, hspace hws'⟩
        rcases hsign with rfl | rfl
        · exact hcolon
        · exact hequals

/-- After a stretch without a sign it ends with the first sign, if what follows is no white space. -/
theorem length_assignment_before {a : Match} {b : Char} {x : List Char}
    (hcolon : ':' ∉ t) (hequals : '=' ∉ t) (hb : b = ':' ∨ b = '=')
    (hx : ∀ c s, x = c :: s → tables.isSpace c = false)
    (ha : a ∈ (assignment tables).before.allMatches prev (t ++ b :: x)) :
    a.text.length = t.length + 1 := by
  obtain ⟨hpre, hdescribes⟩ := text_of_mem ha
  obtain ⟨key, ws, sign, ws', htext, hkey, hws, hsign, hws'⟩ := assignment_before hdescribes
  have hsignWs : ∀ {ws : List Char}, (spaces tables 0).Describes ws → ':' ∉ ws ∧ '=' ∉ ws := fun hws =>
    ⟨not_mem_spaces hws (by decide) (by decide), not_mem_spaces hws (by decide) (by decide)⟩
  have hbHead : b ∉ key ++ ws := by
    rw [List.mem_append, not_or]
    rcases hb with rfl | rfl
    · exact ⟨not_mem_keyword hkey (by simp), (hsignWs hws).1⟩
    · exact ⟨not_mem_keyword hkey (by simp), (hsignWs hws).2⟩
  have hsignT : sign ∉ t := by
    rcases hsign with rfl | rfl
    · exact hcolon
    · exact hequals
  have htext' : a.text = (key ++ ws) ++ sign :: ws' := by rw [htext, List.append_assoc]
  rw [htext'] at hpre
  -- the sign of the match stands where `t` ends
  have hlength : (key ++ ws).length = t.length := by
    rcases Nat.lt_trichotomy (key ++ ws).length t.length with hlt | heq | hgt
    · have hin : (key ++ ws) ++ [sign] <+: t := by
        refine List.prefix_of_prefix_length_le (List.IsPrefix.trans ⟨ws', by simp⟩ hpre)
          (List.prefix_append t _) ?_
        rw [List.length_append, List.length_singleton]
        omega
      exact absurd (hin.subset (by simp)) hsignT
    · exact heq
    · have hin : t ++ [b] <+: key ++ ws := by
        refine List.prefix_of_prefix_length_le ⟨x, by simp⟩
          ((List.prefix_append (key ++ ws) (sign :: ws')).trans hpre) ?_
        rw [List.length_append, List.length_singleton]
        omega
      exact absurd (hin.subset (by simp)) hbHead
  obtain ⟨y, hy, hwsPre⟩ := exists_of_prefix hpre (by simp at hlength ⊢; omega)
  obtain ⟨-, hrest⟩ := List.append_inj hy hlength
  obtain ⟨-, rfl⟩ := List.cons.inj hrest
  have hempty : ws' = [] := by
    cases ws' with
    | nil => rfl
    | cons c ws' =>
      obtain ⟨s, hs⟩ := hwsPre
      exact absurd ((hws'.2 c (by simp)).symm.trans (hx c (ws' ++ s) (by rw [← hs]; rfl))) (by simp)
  rw [htext', hempty, List.length_append, hlength]
  rfl

theorem describes_letters {str : String}
    (h : List.Forall₂ (fun p c => p.isLower = true ∧ c.toNat < 128 ∧ c.toLower = p) str.toList t) :
    (letters tables str).Describes t := by
  simp only [letters, Describes, List.forall₂_map_left_iff]
  exact h.imp (fun p c hpc => by rw [tables.isLetter_ascii p c hpc.1 hpc.2.1, decide_eq_true hpc.2.2])

/-- It ends with letters. -/
theorem concat_of_keyword (h : (keyword tables).Describes t) :
    ∃ x c, t = x ++ [c] ∧ tables.isWord c = true := by
  have hletters : ∀ {str : String} {u : List Char}, (letters tables str).Describes u →
      str.toList ≠ [] → (∀ p ∈ str.toList, p.isLower = true) →
      ∃ x c, u = x ++ [c] ∧ tables.isWord c = true := by
    intro str u hu hstr hs
    rcases List.eq_nil_or_concat u with rfl | ⟨x, c, rfl⟩
    · exact absurd (List.length_eq_zero_iff.mp (length_letters hu).symm) hstr
    · exact ⟨x, c, by simp, isWord_of_letters hu hs c (by simp)⟩
  rcases h with ⟨api, _, rfl, -, sep, key, rfl, -, hkey⟩ | h | h | h | h
  · obtain ⟨x, c, rfl, hc⟩ := hletters hkey (by decide) (by decide)
    exact ⟨api ++ (sep ++ x), c, by simp, hc⟩
  · exact hletters h (by decide) (by decide)
  · exact hletters h (by decide) (by decide)
  · exact hletters h (by decide) (by decide)
  · exact hletters h (by decide) (by decide)

theorem mem_boundary_of {word : CharClass} (h : prev.any word ≠ s.head?.any word) :
    ⟨[], []⟩ ∈ (boundary word).allMatches prev s := by
  rw [allMatches, if_neg h]
  exact List.mem_singleton_self _

theorem plain_keyword : (keyword tables).Plain := by simp [keyword, optional, letters, Plain]

/-- A keyword and a sign are matched, if no word character is before the keyword. -/
theorem mem_assignment_before (ht : (assignment tables).before.Describes t)
    (hprev : prev.any tables.isWord = false) (x : List Char) :
    ∃ a ∈ (assignment tables).before.allMatches prev (t ++ x), a.text = t := by
  obtain ⟨_, _, rfl, rfl, key, _, rfl, hkey, _, signs, rfl, rfl, hsigns⟩ := ht
  obtain ⟨c, y, hfirst, hword⟩ := startsWord_keyword key hkey
  obtain ⟨y', c', hlast, hword'⟩ := concat_of_keyword hkey
  have hhead : (signs ++ x).head?.any tables.isWord = false := by
    obtain ⟨ws, _, rfl, hws, sign, ws', rfl, hsign, -⟩ := hsigns
    cases ws with
    | cons d ws => exact tables.isWord_of_isSpace d (hws.2 d (by simp))
    | nil =>
      cases hsign with
      | cons hd hnil =>
        cases hnil
        simp only [Bool.or_eq_true, decide_eq_true_eq] at hd
        rcases hd with rfl | rfl <;> exact isWord_eq_false (by decide)
  have hmiddle : (⟨[], []⟩ : Match) ∈
      (boundary tables.isWord).allMatches (lastOr prev key) (signs ++ x) :=
    mem_boundary_of (by
      rw [lastOr_eq (c := c') (by rw [hlast]; exact List.getLast?_concat), hhead, Option.any_some,
        hword']
      simp)
  have hstart : (⟨[], []⟩ : Match) ∈ (boundary tables.isWord).allMatches prev (key ++ (signs ++ x)) :=
    mem_boundary_of (by rw [hprev, hfirst]; simp [hword])
  have hkeyMem : (⟨key, []⟩ : Match) ∈ (keyword tables).allMatches prev (key ++ (signs ++ x)) :=
    (mem_plain plain_keyword).mpr ⟨rfl, List.prefix_append _ _, hkey⟩
  have hsignMem : (⟨signs, []⟩ : Match) ∈ (seq (spaces tables 0)
      (seq (chars [fun c => c = ':' || c = '=']) (spaces tables 0))).allMatches (lastOr prev key)
        (signs ++ x) :=
    (mem_plain (by simp [spaces, Plain])).mpr ⟨rfl, List.prefix_append _ _, hsigns⟩
  have hafterKey := mem_seq_of hmiddle (mem_group (k := 2) |>.mpr ⟨_, by simpa using hsignMem, rfl⟩)
  have hafterStart := mem_seq_of (mem_group (k := 1) |>.mpr ⟨_, hkeyMem, rfl⟩)
    (by simpa only [List.drop_left] using hafterKey)
  have hall := mem_seq_of hstart
    (by simpa only [List.length_nil, List.drop_zero, lastOr_nil] using hafterStart)
  rw [show [] ++ (key ++ ([] ++ signs)) ++ x = key ++ (signs ++ x) by simp]
  exact ⟨_, hall, rfl⟩

theorem describes_assignment_before {b : Char} (hkey : (keyword tables).Describes t)
    (hb : b = ':' ∨ b = '=') : (assignment tables).before.Describes (t ++ [b]) := by
  refine ⟨[], _, rfl, rfl, t, [b], rfl, hkey, [], [b], rfl, rfl, [], [b], rfl, ?_, [b], [], rfl, ?_, ?_⟩
  · exact ⟨Nat.zero_le _, by simp⟩
  · simpa [Describes] using hb
  · exact ⟨Nat.zero_le _, by simp⟩

end

end FleetPulse
