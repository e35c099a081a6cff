import FleetPulse.Assistant.Words

/-! An assignment of a credential behind a blank: whatever is before it, the value does not show.

        … pre …  KEY=value  suf …

    Either a match that begins in `pre` takes the word with it, in one of the first three passes, or
    the word comes to the third pass as it was and is matched there. The first two patterns must not
    begin inside the value, which they do when it ends with their first word: that word would be read
    together with what follows. -/

namespace FleetPulse
open Regex

/-- `[A-Za-z0-9_-]`. -/
def credentialChar : CharClass := fun c => isAsciiAlnum c || c = '-' || c = '_'

/-- A value. -/
structure SecretValue where
  chars : List Char
  form : ∀ c ∈ chars, credentialChar c = true
  ne_nil : chars ≠ []

/-- A value at whose end neither of the first two patterns begins. -/
structure Credential extends SecretValue where
  not_authorization : ¬ "authorization".toList <:+ chars.map Char.toLower
  not_bearer : ¬ "bearer".toList <:+ chars.map Char.toLower

/-- A keyword of the third pattern, in ASCII and in either case. -/
structure IsKeyword (tables : UnicodeTables) (key : List Char) : Prop where
  described : (keyword tables).Describes key
  ascii : ∀ c ∈ key, c.toNat < 128

/-- `KEY=value`. -/
def credentialWord (key : List Char) (value : Credential) : List Char := key ++ '=' :: value.chars

/-- Behind `bearer` a token has at least eight characters: both words have them, or neither. -/
def SameReach (key : List Char) (value value' : Credential) : Prop :=
  8 ≤ (credentialWord key value).length ∧ 8 ≤ (credentialWord key value').length ∨
    (credentialWord key value).length = (credentialWord key value').length

/-- The end of the text, or white space. -/
def EndsWord (tables : UnicodeTables) (X : List Char) : Prop :=
  ∀ c s, X = c :: s → tables.isSpace c = true

section
variable {tables : UnicodeTables} {r R Q : Regex} {prev : Option Char} {t key X : List Char}
  {value value' : Credential}

theorem EndsWord.apart (h : EndsWord tables X) : Apart tables X :=
  fun c s hX => tables.isWord_of_isSpace c (h c s hX)

/-! ### Characters -/

theorem formChar_of_credentialChar {c : Char} (h : credentialChar c = true) : formChar c = true := by
  simp only [credentialChar, formChar, Bool.or_eq_true, decide_eq_true_eq] at h ⊢
  rcases h with (h | rfl) | rfl
  · exact .inl h
  · exact .inr (by decide)
  · exact .inr (by decide)

/-- In ASCII, letters are the word itself, but for the case. -/
theorem lower_of_letters {str : String} (h : (letters tables str).Describes t)
    (hs : ∀ p ∈ str.toList, p.isLower = true) (ht : ∀ c ∈ t, c.toNat < 128) :
    t.map Char.toLower = str.toList := by
  simp only [letters, Describes, List.forall₂_map_left_iff] at h
  generalize str.toList = ps at h hs
  induction h with
  | nil => rfl
  | @cons p c ps t hc _ ih =>
    rw [tables.isLetter_ascii p c (hs p (by simp)) (ht c (by simp)), decide_eq_true_eq] at hc
    rw [List.map_cons, hc, ih (fun d hd => ht d (by simp [hd])) (fun q hq => hs q (by simp [hq]))]

/-! ### No match begins in the word -/

/-- Its matches begin with the letters, and then there is white space or a colon. -/
def LettersFirst (tables : UnicodeTables) (R : Regex) (str : String) : Prop := ∀ t, R.Describes t →
  ∃ w c x, t = w ++ c :: x ∧ (letters tables str).Describes w ∧ (tables.isSpace c = true ∨ c = ':')

theorem lettersFirst_authorizationHeader :
    LettersFirst tables (authorizationHeader tables).before "authorization" := by
  rintro t ⟨auth, _, rfl, hauth, ws, _, rfl, hws, colon, rest, rfl, hcolon, -⟩
  obtain rfl := describes_literal hcolon
  cases ws with
  | nil => exact ⟨auth, ':', rest, by simp, hauth, .inr rfl⟩
  | cons c ws => exact ⟨auth, c, ws ++ (":".toList ++ rest), by simp, hauth, .inl (hws.2 c (by simp))⟩

theorem lettersFirst_bearerToken : LettersFirst tables (bearerToken tables).before "bearer" := by
  rintro t ⟨_, _, rfl, rfl, bearer, ws, rfl, hbearer, hws⟩
  cases ws with
  | nil => exact absurd hws.1 (by simp)
  | cons c ws => exact ⟨bearer, c, ws, by simp, hbearer, .inl (hws.2 c (by simp))⟩

/-- Inside a value it would have to end with the letters. -/
theorem first_eq_none_of_lettersFirst {str : String} (hR : LettersFirst tables R str)
    (hs : ∀ p ∈ str.toList, p.isLower = true) (hform : ∀ c ∈ t, credentialChar c = true)
    (hnot : str.toList ≠ t.map Char.toLower) (hX : EndsWord tables X) :
    (seq R Q).first prev (t ++ X) = none := by
  refine first_eq_none.mpr (fun m hm => ?_)
  obtain ⟨a, ha, -⟩ := mem_seq.mp hm
  obtain ⟨hpre, hdescribes⟩ := text_of_mem ha
  obtain ⟨w, c, x, htext, hw, hc⟩ := hR a.text hdescribes
  rw [htext] at hpre
  rcases Nat.lt_trichotomy w.length t.length with hlt | heq | hgt
  · -- the character behind the letters is one of the value
    have hin : w ++ [c] <+: t :=
      List.prefix_of_prefix_length_le (List.IsPrefix.trans ⟨x, by simp⟩ hpre)
        (List.prefix_append t X) (by simpa using hlt)
    have hmem := hform c (hin.subset (by simp))
    rcases hc with hc | rfl
    · exact absurd (hc.symm.trans (isSpace_of_formChar (formChar_of_credentialChar hmem))) (by simp)
    · exact absurd hmem (by decide)
  · have hsame : w = t :=
      List.IsPrefix.eq_of_length (List.prefix_of_prefix_length_le
        ((List.prefix_append w (c :: x)).trans hpre) (List.prefix_append t X) heq.le) heq
    have hascii : ∀ d ∈ w, d.toNat < 128 := fun d hd =>
      ascii_of_formChar (formChar_of_credentialChar (hform d (hsame ▸ hd)))
    exact hnot (hsame ▸ (lower_of_letters hw hs hascii).symm)
  · -- the letters go into what ends the word
    have hin : t <+: w := List.prefix_of_prefix_length_le (List.prefix_append t X)
      ((List.prefix_append w (c :: x)).trans hpre) hgt.le
    obtain ⟨y, rfl⟩ := hin
    cases y with
    | nil => simp at hgt
    | cons d y =>
      rw [List.append_assoc, List.prefix_append_right_inj, List.cons_append] at hpre
      cases X with
      | nil => cases List.prefix_nil.mp hpre
      | cons e X =>
        obtain ⟨rfl, -⟩ := List.cons_prefix_cons.mp hpre
        have hword := isWord_of_letters hw hs d (by simp)
        rw [tables.isWord_of_isSpace d (hX d X rfl)] at hword
        cases hword

/-- Keywords have at least five characters. -/
theorem IsKeyword.form (hkey : IsKeyword tables key) :
    (∀ c ∈ key, credentialChar c = true) ∧ 5 ≤ key.length := by
  have hletters : ∀ {str : String} {u : List Char}, (letters tables str).Describes u →
      (∀ p ∈ str.toList, p.isLower = true) → (∀ c ∈ u, c.toNat < 128) →
      ∀ c ∈ u, credentialChar c = true := by
    intro str u hu hs hascii c hc
    have hlower : c.toLower ∈ str.toList := by
      rw [← lower_of_letters hu hs hascii]
      exact List.mem_map_of_mem hc
    simp [credentialChar, isAsciiAlnum_of_toLower (hs _ hlower) rfl]
  obtain ⟨hdescribed, hascii⟩ := hkey
  rcases hdescribed with ⟨api, _, rfl, hapi, sep, name, rfl, hsep, hname⟩ | h | h | h | h
  · have hsepChar : ∀ c ∈ sep, credentialChar c = true := by
      rcases hsep with hsep | hsep
      · cases hsep with
        | cons hc hnil =>
          cases hnil
          simp only [Bool.or_eq_true, decide_eq_true_eq] at hc
          rcases hc with rfl | rfl <;> decide
      · simp [List.forall₂_nil_left_iff.mp hsep]
    refine ⟨fun c hc => ?_, ?_⟩
    · simp only [List.mem_append] at hc
      rcases hc with hc | hc | hc
      · exact hletters hapi (by decide) (fun d hd => hascii d (by simp [hd])) c hc
      · exact hsepChar c hc
      · exact hletters hname (by decide) (fun d hd => hascii d (by simp [hd])) c hc
    · have hlength := length_letters hapi
      have hlength' := length_letters hname
      simp only [List.length_append, hlength, hlength']
      change 5 ≤ 3 + (sep.length + 3)
      omega
  · exact ⟨hletters h (by decide) hascii, by rw [length_letters h]; decide⟩
  · exact ⟨hletters h (by decide) hascii, by rw [length_letters h]; decide⟩
  · exact ⟨hletters h (by decide) hascii, by rw [length_letters h]; decide⟩
  · exact ⟨hletters h (by decide) hascii, by rw [length_letters h]; decide⟩

theorem formChar_of_word (hkey : IsKeyword tables key) : ∀ c ∈ credentialWord key value,
    formChar c = true := by
  intro c hc
  rcases List.mem_append.mp hc with hc | hc
  · exact formChar_of_credentialChar (hkey.form.1 c hc)
  · rcases List.mem_cons.mp hc with rfl | hc
    · decide
    · exact formChar_of_credentialChar (value.form c hc)

/-- The first two patterns do not begin in the word. -/
theorem first_eq_none_of_word {str : String} (hS : SpaceLast tables R)
    (hL : LettersFirst tables R str) (hstart : StartsWord tables (seq R Q))
    (hs : ∀ p ∈ str.toList, p.isLower = true) (hkey : IsKeyword tables key)
    (hnot : ¬ str.toList <:+ value.chars.map Char.toLower) (hX : EndsWord tables X) :
    ∀ s t, credentialWord key value = s ++ t → t ≠ [] →
      (seq R Q).first (lastOr prev s) (t ++ X) = none := by
  intro s t hst ht
  rcases List.append_eq_append_iff.mp hst with ⟨a, -, ha⟩ | ⟨a, ha, rfl⟩
  · cases a with
    | nil =>
      rw [List.nil_append] at ha
      rw [← ha]
      exact first_eq_none_of_isWord hstart (isWord_eq_false (by simp))
    | cons c a =>
      have hsuffix : t <:+ value.chars := ⟨a, (List.cons.inj ha).2.symm⟩
      exact first_eq_none_of_lettersFirst hL hs (fun c hc => value.form c (hsuffix.subset hc))
        (fun heq => hnot (heq ▸ hsuffix.map Char.toLower)) hX
  · rw [List.append_assoc, List.cons_append]
    refine first_eq_none_of_spaceLast hS (fun c hc => ?_) (.inl rfl)
    have hword : c ∈ credentialWord key value :=
      List.mem_append_left _ (ha ▸ List.mem_append_right s hc)
    exact isSpace_of_formChar (formChar_of_word hkey c hword)

/-! ### The first two passes -/

/-- A pass leaves the end of the word. -/
theorem endsWord_subn {template : Regex.Match → List Char} (hstart : StartsWord tables r)
    (hX : EndsWord tables X) : EndsWord tables (r.subn template 0 prev X).1 := by
  cases X with
  | nil =>
    intro c s hnil
    cases hnil
  | cons c X =>
    have hnone : r.scan template X 0 prev [c] = ⟨[c], 0⟩ := by
      refine scan_none (fun s t hst ht => ?_)
      obtain ⟨rfl, rfl⟩ : s = [] ∧ t = [c] := by
        cases s with
        | nil => exact ⟨rfl, hst.symm⟩
        | cons d s => exact absurd (List.append_eq_nil_iff.mp (List.cons.inj hst).2.symm).2 ht
      exact first_eq_none_of_isWord hstart (hX.apart c X rfl)
    intro d s hd
    have hcons : (r.subn template 0 prev ([c] ++ X)).1 = _ := subn_append_of hnone
    rw [List.singleton_append] at hcons
    rw [hcons] at hd
    obtain ⟨rfl, -⟩ := List.cons.inj hd
    exact hX c X rfl

/-- The text with the word behind a blank. -/
def assigning (pre key : List Char) (value : Credential) (X : List Char) : List Char :=
  pre ++ ' ' :: (credentialWord key value ++ X)

/-- The pass makes the two texts equal, or it leaves the word where it is. -/
def Agree (tables : UnicodeTables) (key : List Char) (value value' : Credential)
    (text text' : List Char) : Prop :=
  text = text' ∨ ∃ pre X, EndsWord tables X ∧ text = assigning pre key value X ∧
    text' = assigning pre key value' X

variable {cls : CharClass} {min : ℕ} {groups : List Char → List (ℕ × List Char)}
  {template : Regex.Match → List Char} {pre : List Char}

theorem head?_word (hkey : IsKeyword tables key) :
    (credentialWord key value ++ X).head? = (credentialWord key value' ++ X).head? := by
  cases key with
  | nil => exact absurd hkey.form.2 (by simp)
  | cons c key => rfl

/-- Two words count as a run of the same classes. -/
theorem min_le_iff_of_word (hlong : SameReach key value value') (hmin : min ≤ 8)
    (hword : ∀ value : Credential, ∀ c ∈ credentialWord key value, cls c = true) :
    min ≤ ((credentialWord key value ++ X).takeWhile cls).length ↔
      min ≤ ((credentialWord key value' ++ X).takeWhile cls).length := by
  rw [List.takeWhile_append_of_pos (hword value), List.takeWhile_append_of_pos (hword value'),
    List.length_append, List.length_append]
  rcases hlong with ⟨hlong, hlong'⟩ | hsame
  · omega
  · rw [hsame]

/-- One of the first two passes. -/
theorem agree_of_pass {str : String} (hQ : IsRun Q cls min groups) (hS : SpaceLast tables R)
    (hL : LettersFirst tables R str) (hstart : StartsWord tables (seq R Q))
    (hs : ∀ p ∈ str.toList, p.isLower = true) (hblank : cls ' ' = false)
    (hword : ∀ value : Credential, ∀ c ∈ credentialWord key value, cls c = true)
    (htemplate : ∀ a g x x', template ⟨a ++ x, g ++ groups x⟩ = template ⟨a ++ x', g ++ groups x'⟩)
    (hkey : IsKeyword tables key) (hlong : SameReach key value value') (hmin : min ≤ 8)
    (hX : EndsWord tables X)
    (hnot : ∀ value : Credential, ¬ str.toList <:+ value.chars.map Char.toLower) :
    Agree tables key value value'
      ((seq R Q).subn template 0 none (assigning pre key value X)).1
      ((seq R Q).subn template 0 none (assigning pre key value' X)).1 := by
  have hends : ∀ (value : Credential) prev t,
      EndsAt R cls ' ' prev t (credentialWord key value ++ X) := fun value prev t =>
    endsAt_of_spaceLast hS hblank (formChar_of_word hkey) (.inl (by simp [credentialWord]))
  have hinert : Inert (seq R Q) X := inert_of_apart hstart hX.apart
  rcases covered_or_apart template pre hQ (fun _ t _ _ => hends value _ t)
    (fun _ t _ _ => hends value' _ t) (hword value) (hword value') (head?_word hkey) htemplate
    (.inr hinert) (min_le_iff_of_word hlong hmin hword) with hsame | ⟨out, hout, hout'⟩
  · exact .inl hsame
  · -- behind the blank nothing is matched before the word ends
    have hrest : ∀ value : Credential,
        ((seq R Q).subn template 0 (lastOr none pre) (' ' :: (credentialWord key value ++ X))).1 =
          ' ' :: (credentialWord key value ++ ((seq R Q).subn template 0 none X).1) := by
      intro value
      have hnone : (seq R Q).scan template X 0 (lastOr none pre) (' ' :: credentialWord key value) =
          ⟨' ' :: credentialWord key value, 0⟩ := by
        refine scan_none (fun s t hst ht => ?_)
        cases s with
        | nil =>
          rw [List.nil_append] at hst
          rw [← hst]
          exact first_eq_none_of_isWord hstart (isWord_eq_false (by simp))
        | cons c s =>
          rw [lastOr_cons]
          exact first_eq_none_of_word hS hL hstart hs hkey (hnot value) hX s t (List.cons.inj hst).2 ht
      rw [← List.cons_append, subn_append_of hnone, subn_of_inert none hinert, List.cons_append]
    refine .inr ⟨out, ((seq R Q).subn template 0 none X).1, endsWord_subn hstart hX, ?_, ?_⟩
    · rw [assigning, subn_append_of hout, hrest, assigning]
    · rw [assigning, subn_append_of hout', hrest, assigning]

theorem valueChar_of_word (hkey : IsKeyword tables key) : ∀ c ∈ credentialWord key value,
    valueChar tables c = true := fun c hc => valueChar_of_formChar (formChar_of_word hkey c hc)

theorem tokenChar_of_word (hkey : IsKeyword tables key) : ∀ c ∈ credentialWord key value,
    tokenChar tables c = true := by
  intro c hc
  refine tokenChar_of_formChar (formChar_of_word hkey c hc) ?_ ?_
  all_goals
    rintro rfl
    rcases List.mem_append.mp hc with hc | hc
    · exact absurd (hkey.form.1 _ hc) (by decide)
    · rcases List.mem_cons.mp hc with heq | hc
      · exact absurd heq (by decide)
      · exact absurd (value.form _ hc) (by decide)

theorem agree_authorizationHeader (hkey : IsKeyword tables key) (hlong : SameReach key value value')
    (hX : EndsWord tables X) :
    Agree tables key value value'
      (pass (authorizationHeader tables) 0 (assigning pre key value X))
      (pass (authorizationHeader tables) 0 (assigning pre key value' X)) :=
  agree_of_pass isRun_many spaceLast_authorizationHeader lettersFirst_authorizationHeader
    startsWord_authorizationHeader (by decide) (by simp [valueChar, isSpace_blank])
    (fun _ => valueChar_of_word hkey) (fun _ _ _ _ => rfl) hkey hlong (by decide)
    hX (fun value => value.not_authorization)

theorem agree_bearerToken (hkey : IsKeyword tables key) (hlong : SameReach key value value')
    (hX : EndsWord tables X) :
    Agree tables key value value'
      (pass (bearerToken tables) 1 (assigning pre key value X))
      (pass (bearerToken tables) 1 (assigning pre key value' X)) :=
  agree_of_pass isRun_many spaceLast_bearerToken lettersFirst_bearerToken
    startsWord_bearerToken (by decide) ((tokenChar_ascii (by decide)).trans (by decide))
    (fun _ => tokenChar_of_word hkey) (fun _ _ _ _ => rfl) hkey hlong (by decide)
    hX (fun value => value.not_bearer)

/-! ### The third pass -/

/-- What it keeps is all that is before the value. -/
theorem groups_assignment {s : List Char} {a : Regex.Match}
    (h : a ∈ (assignment tables).before.allMatches prev s) :
    ∃ x y, a.text = x ++ y ∧ a.groups.lookup 1 = some x ∧ a.groups.lookup 2 = some y := by
  obtain ⟨start, hstart, rest, hrest, rfl⟩ := mem_seq.mp h
  obtain ⟨name, hname, tail, htail, rfl⟩ := mem_seq.mp hrest
  obtain ⟨middle, hmiddle, sign, hsign, rfl⟩ := mem_seq.mp htail
  obtain ⟨key, hkey, rfl⟩ := mem_group.mp hname
  obtain ⟨signs, -, rfl⟩ := mem_group.mp hsign
  obtain rfl := mem_boundary hstart
  obtain rfl := mem_boundary hmiddle
  have hgroups := ((mem_plain plain_keyword).mp hkey).1
  exact ⟨key.text, signs.text, by simp, by simp, by simp [hgroups, List.lookup]⟩

/-- Behind a blank the word is matched, and its value is not written. -/
theorem first_assignment_of_word (value : Credential) (hkey : IsKeyword tables key)
    (hX : EndsWord tables X) :
    ∃ groups, (assignment tables).first (some ' ') (credentialWord key value ++ X) =
        some ⟨credentialWord key value, groups⟩ ∧
      replacement 2 ⟨credentialWord key value, groups⟩ = key ++ '=' :: redacted := by
  obtain ⟨hcolon, hequals⟩ : ':' ∉ key ∧ '=' ∉ key :=
    ⟨fun h => absurd (hkey.form.1 _ h) (by decide),
      fun h => absurd (hkey.form.1 _ h) (by decide)⟩
  have hclass : ∀ c ∈ value.chars, valueChar tables c = true := fun c hc =>
    valueChar_of_formChar (formChar_of_credentialChar (value.form c hc))
  have hrun : (value.chars ++ X).takeWhile (valueChar tables) = value.chars := by
    rw [List.takeWhile_append_of_pos hclass]
    cases X with
    | nil => rw [List.takeWhile_nil, List.append_nil]
    | cons c X =>
      rw [List.takeWhile_cons_of_neg (by simp [valueChar, hX c X rfl]), List.append_nil]
  have hnext : ∀ c s, value.chars ++ X = c :: s → tables.isSpace c = false := by
    intro c s hcons
    cases hvalue : value.chars with
    | nil => exact absurd hvalue value.ne_nil
    | cons d chars =>
      rw [hvalue, List.cons_append] at hcons
      obtain ⟨rfl, -⟩ := List.cons.inj hcons
      exact isSpace_of_formChar (formChar_of_credentialChar (value.form d (by simp [hvalue])))
  have htext : credentialWord key value ++ X = key ++ '=' :: (value.chars ++ X) := by
    simp [credentialWord]
  obtain ⟨a, ha, -⟩ : ∃ a ∈ (assignment tables).before.allMatches (some ' ')
      ((key ++ ['=']) ++ (value.chars ++ X)), a.text = key ++ ['='] :=
    mem_assignment_before (describes_assignment_before hkey.described (.inr rfl))
      (by simp [isWord_eq_false]) _
  rw [List.append_assoc, List.singleton_append] at ha
  have hsplit : assignment tables =
      seq (assignment tables).before (group 3 (many false 1 (valueChar tables))) := rfl
  cases hall : (assignment tables).before.allMatches (some ' ') (key ++ '=' :: (value.chars ++ X)) with
  | nil =>
    rw [hall] at ha
    cases ha
  | cons a rest =>
    have hmem : a ∈ (assignment tables).before.allMatches (some ' ')
        (key ++ '=' :: (value.chars ++ X)) := by
      rw [hall]
      exact List.mem_cons_self ..
    have hlength : a.text.length = key.length + 1 :=
      length_assignment_before hcolon hequals (.inr rfl) hnext hmem
    have hbefore : a.text = key ++ ['='] := by
      refine List.IsPrefix.eq_of_length (List.prefix_of_prefix_length_le (text_of_mem hmem).1
        ⟨value.chars ++ X, by simp⟩ (by simp [hlength])) (by simp [hlength])
    obtain ⟨x, y, hxy, hx, hy⟩ := groups_assignment hmem
    refine ⟨a.groups ++ [(3, value.chars)], ?_, ?_⟩
    · have hmin : 1 ≤ value.chars.length := List.length_pos_iff.mpr value.ne_nil
      rw [htext, hsplit, first_eq_runFrom, hall, List.findSome?_cons,
        runFrom_end (isRun_group isRun_many) hlength, hrun, if_pos hmin, hbefore]
      simp [credentialWord]
    · simp only [replacement, Match.group, List.lookup_append, hx, hy, Option.some_or, Option.getD_some,
        if_true]
      rw [← hxy, hbefore, List.append_assoc]
      rfl

/-- THE THIRD PASS: whatever is before the word, its value is not written. -/
theorem pass_assignment (hkey : IsKeyword tables key) (hlong : SameReach key value value')
    (hX : EndsWord tables X) :
    pass (assignment tables) 2 (assigning pre key value X) =
      pass (assignment tables) 2 (assigning pre key value' X) := by
  have hinert : Inert (assignment tables) X := inert_of_apart startsWord_assignment hX.apart
  have hends : ∀ (value : Credential) prev t, EndsAt (assignment tables).before (valueChar tables) ' '
      prev t (credentialWord key value ++ X) := by
    intro value prev t
    have hform := hkey.form
    obtain ⟨c, x, rfl, hword⟩ := startsWord_keyword key hkey.described
    refine endsAt_assignment hword ?_ ?_
    · rintro rfl
      exact absurd (hform.1 ':' (by simp)) (by decide)
    · rintro rfl
      exact absurd (hform.1 '=' (by simp)) (by decide)
  have hwritten : ∀ (value : Credential) (prev : Option Char),
      ((assignment tables).subn (replacement 2) 0 prev (' ' :: (credentialWord key value ++ X))).1 =
        ' ' :: (key ++ '=' :: redacted ++ ((assignment tables).subn (replacement 2) 0 none X).1) := by
    intro value prev
    obtain ⟨groups, hfirst, hreplacement⟩ := first_assignment_of_word value hkey hX
    have hscan : (assignment tables).scan (replacement 2) X 0 (some ' ') (credentialWord key value) =
        ⟨key ++ '=' :: redacted, 0⟩ :=
      hreplacement ▸ scan_of_first (by simp [credentialWord]) hfirst
    have hblank : (assignment tables).scan (replacement 2) (credentialWord key value ++ X) 0 prev [' ']
        = ⟨[' '], 0⟩ := by
      rw [scan_cons_of_none (first_eq_none_of_isWord startsWord_assignment
        (isWord_eq_false (by simp)))]
      rfl
    rw [← List.singleton_append, subn_append_of hblank, lastOr_eq (c := ' ') rfl, subn_append_of hscan,
      subn_of_inert none hinert, List.singleton_append]
  rcases covered_or_apart (replacement 2) pre (isRun_group isRun_many) (fun _ t _ _ => hends value _ t)
    (fun _ t _ _ => hends value' _ t) (valueChar_of_word hkey) (valueChar_of_word hkey)
    (head?_word hkey)
    (fun a g x x' => by simp [replacement, Match.group, List.lookup_append, List.lookup])
    (.inr hinert) (min_le_iff_of_word hlong (by decide) (fun _ => valueChar_of_word hkey))
    with hsame | ⟨out, hout, hout'⟩
  · exact hsame
  · have hpass : ∀ value : Credential, (assignment tables).scan (replacement 2)
        (' ' :: (credentialWord key value ++ X)) 0 none pre = ⟨out, 0⟩ →
        pass (assignment tables) 2 (assigning pre key value X) = out ++ ' ' ::
          (key ++ '=' :: redacted ++ ((assignment tables).subn (replacement 2) 0 none X).1) := by
      intro value hout
      rw [pass, assigning, subn_append_of hout, hwritten]
    rw [hpass value hout, hpass value' hout']

/-- All passes: a word that one of the first two takes is gone, and the third hides it else. -/
theorem redact_assigning (hkey : IsKeyword tables key) (hlong : SameReach key value value')
    (hX : EndsWord tables X) :
    (SecretRedactor.redact tables (String.ofList (assigning pre key value X))).text =
      (SecretRedactor.redact tables (String.ofList (assigning pre key value' X))).text := by
  have hthird : ∀ {text text' : List Char}, Agree tables key value value' text text' →
      pass (assignment tables) 2 text = pass (assignment tables) 2 text' := by
    rintro text text' (rfl | ⟨pre, X, hX, rfl, rfl⟩)
    · rfl
    · exact pass_assignment hkey hlong hX
  have hsecond : ∀ {text text' : List Char}, Agree tables key value value' text text' →
      Agree tables key value value' (pass (bearerToken tables) 1 text)
        (pass (bearerToken tables) 1 text') := by
    rintro text text' (rfl | ⟨pre, X, hX, rfl, rfl⟩)
    · exact .inl rfl
    · exact agree_bearerToken hkey hlong hX
  rw [redact_text, redact_text, String.toList_ofList, String.toList_ofList,
    hthird (hsecond (agree_authorizationHeader hkey hlong hX))]

end

/-- HIDDEN: a keyword and a value behind a blank. What comes out is the same for two values, whatever
    is before the blank and behind the value. -/
theorem assignment_hidden (tables : UnicodeTables) (pre suf key : List Char)
    (value value' : Credential) (hkey : IsKeyword tables key) (hlong : SameReach key value value')
    (hsuf : EndsWord tables suf) :
    (SecretRedactor.redact tables (String.ofList (assigning pre key value suf))).text =
      (SecretRedactor.redact tables (String.ofList (assigning pre key value' suf))).text :=
  redact_assigning hkey hlong hsuf

theorem isKeyword_apiKey : IsKeyword .ascii "API-Key".toList where
  described := .inl ⟨"API".toList, "-Key".toList, rfl, describes_letters (by decide), ['-'],
    "Key".toList, rfl, .inl (by simp [Describes]), describes_letters (by decide)⟩
  ascii := by decide

/-- Two values between words that are no secrets. -/
theorem assignment_hidden_apiKey :
    (SecretRedactor.redact .ascii (String.ofList (assigning "curl --bearer".toList "API-Key".toList
      ⟨⟨"hunter2".toList, by decide, by decide⟩, by decide, by decide⟩ " https://db".toList))).text =
    (SecretRedactor.redact .ascii (String.ofList (assigning "curl --bearer".toList "API-Key".toList
      ⟨⟨"correct-horse_9".toList, by decide, by decide⟩, by decide, by decide⟩
      " https://db".toList))).text :=
  assignment_hidden .ascii "curl --bearer".toList " https://db".toList "API-Key".toList _ _
    isKeyword_apiKey (.inl (by decide)) (by
      intro c s hsuf
      obtain ⟨rfl, -⟩ := List.cons.inj hsuf
      rfl)

end FleetPulse
