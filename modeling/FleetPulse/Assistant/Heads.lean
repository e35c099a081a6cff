import FleetPulse.Assistant.Configured
import FleetPulse.Lib.Rewriting

/-! The first three patterns as heads with a run behind them.

        authorization : bearer  ▕ value        bearer  ▕ token        keyword =  ▕ value
        ─────────── head ──────                ─ head ─               ── head ──

    Brackets are in no head, and each has a character that `[REDACTED]` has not, so a head in the output
    of a pass was in the text. What a pass hides is `Neat`: no word begins right behind it that did not
    begin there before, and no part of a mark is hidden. -/

namespace FleetPulse
open Regex

section
variable {tables : UnicodeTables} {prev prev' : Option Char} {s t u h k b x y v : List Char} {c : Char}
  {P pb : List Piece}

/-! ### Characters -/

theorem redacted_ne_nil : redacted ≠ [] := by decide

theorem isSpace_redacted : ∀ c ∈ redacted, tables.isSpace c = false := by
  have hnone : ∀ c ∈ redacted, c.toNat < 128 ∧ (c = ' ' || (9 ≤ c.toNat && c.toNat ≤ 13) ||
      (28 ≤ c.toNat && c.toNat ≤ 31)) = false := by decide
  intro c hc
  rw [tables.isSpace_ascii c (hnone c hc).1, (hnone c hc).2]

theorem valueChar_redacted : ∀ c ∈ redacted, valueChar tables c = true := by
  have hnone : ∀ c ∈ redacted, c ≠ ',' ∧ c ≠ ';' := by decide
  intro c hc
  simp [valueChar, isSpace_redacted c hc, hnone c hc]

theorem valueChar_of_tokenChar (hc : tokenChar tables c = true) : valueChar tables c = true := by
  by_cases hascii : c.toNat < 128
  · have hnone : (isAsciiAlnum c || ['.', '_', '~', '+', '/', '=', '-'].contains c) = true →
        (c = ' ' || (9 ≤ c.toNat && c.toNat ≤ 13) || (28 ≤ c.toNat && c.toNat ≤ 31)) = false ∧
          c ≠ ',' ∧ c ≠ ';' :=
      forall_ascii (p := fun c =>
        (isAsciiAlnum c || ['.', '_', '~', '+', '/', '=', '-'].contains c) = true →
          (c = ' ' || (9 ≤ c.toNat && c.toNat ≤ 13) || (28 ≤ c.toNat && c.toNat ≤ 31)) = false ∧
            c ≠ ',' ∧ c ≠ ';') (by decide +kernel) c hascii
    rw [tokenChar_ascii hascii] at hc
    obtain ⟨hspace, hcomma, hsemicolon⟩ := hnone hc
    simp [valueChar, tables.isSpace_ascii c hascii, hspace, hcomma, hsemicolon]
  · have hother : ∀ d : Char, d.toNat < 128 → c ≠ d := fun d hd heq => hascii (heq ▸ hd)
    have hletter : ∃ p : Char, p.isLower = true ∧ tables.isLetter p c = true := by
      simp only [tokenChar, Bool.or_eq_true, List.any_eq_true] at hc
      rcases hc with (halnum | hsign) | ⟨p, hp, hletter⟩
      · exact absurd (ascii_of_formChar (by simp [formChar, halnum])) hascii
      · have hsigns : ∀ d ∈ ['.', '_', '~', '+', '/', '=', '-'], d.toNat < 128 := by decide
        exact absurd (hsigns c (by simpa using hsign)) hascii
      · have hlower : ∀ p ∈ "abcdefghijklmnopqrstuvwxyz".toList, p.isLower = true := by decide
        exact ⟨p, hlower p hp, hletter⟩
    obtain ⟨p, hp, hletter⟩ := hletter
    have hspace : tables.isSpace c = false := by
      by_contra hspace
      have hword := tables.isWord_of_isLetter p c hp hletter
      rw [tables.isWord_of_isSpace c (by simpa using hspace)] at hword
      cases hword
    simp [valueChar, hspace, hother ',' (by decide), hother ';' (by decide)]

theorem tokenChar_bracket : tokenChar tables '[' = false :=
  (tokenChar_ascii (by decide)).trans (by decide)

/-- The letters of a pattern. -/
theorem tokenChar_of_letters {s : String} (ht : (letters tables s).Describes t)
    (hs : ∀ p ∈ s.toList, p ∈ "abcdefghijklmnopqrstuvwxyz".toList) :
    ∀ c ∈ t, tokenChar tables c = true := by
  simp only [letters, Describes, List.forall₂_map_left_iff] at ht
  generalize s.toList = ps at ht hs
  induction ht with
  | nil => simp
  | @cons p c ps t hc _ ih =>
    intro d hd
    rcases List.mem_cons.mp hd with rfl | hd
    · rw [tokenChar, Bool.or_eq_true]
      exact .inr (List.any_eq_true.mpr ⟨p, hs p (by simp), hc⟩)
    · exact ih (fun q hq => hs q (by simp [hq])) d hd

theorem tokenChar_of_keyword (ht : (keyword tables).Describes t) :
    ∀ c ∈ t, tokenChar tables c = true := by
  rcases ht with ⟨api, _, rfl, hapi, sep, key, rfl, hsep, hkey⟩ | ht | ht | ht | ht
  · have hsepToken : ∀ c ∈ sep, tokenChar tables c = true := by
      rcases hsep with hsep | hsep
      · cases hsep with
        | cons hc hnil =>
          cases hnil
          simp only [Bool.or_eq_true, decide_eq_true_eq] at hc
          rcases hc with rfl | rfl <;>
            simpa using tokenChar_of_formChar (by decide) (by decide) (by decide)
      · simp [List.forall₂_nil_left_iff.mp hsep]
    intro c hc
    simp only [List.mem_append] at hc
    rcases hc with hc | hc | hc
    · exact tokenChar_of_letters hapi (by decide) c hc
    · exact hsepToken c hc
    · exact tokenChar_of_letters hkey (by decide) c hc
  · exact tokenChar_of_letters ht (by decide)
  · exact tokenChar_of_letters ht (by decide)
  · exact tokenChar_of_letters ht (by decide)
  · exact tokenChar_of_letters ht (by decide)

/-! ### The heads of the first three patterns -/

def AuthorizationHead (tables : UnicodeTables) (_ : Option Char) (h : List Char) : Prop :=
  (authorizationHeader tables).before.Describes h

def BearerHead (tables : UnicodeTables) (prev : Option Char) (h : List Char) : Prop :=
  prev.any tables.isWord = false ∧ (bearerToken tables).before.Describes h

def AssignmentHead (tables : UnicodeTables) (prev : Option Char) (h : List Char) : Prop :=
  prev.any tables.isWord = false ∧ (assignment tables).before.Describes h

theorem isSpace_of_letters {s : String} (ht : (letters tables s).Describes t)
    (hs : ∀ p ∈ s.toList, p.isLower = true) : ∀ c ∈ t, tables.isSpace c = false := by
  intro c hc
  have hword := isWord_of_letters ht hs c hc
  cases hspace : tables.isSpace c with
  | false => rfl
  | true =>
    rw [tables.isWord_of_isSpace c hspace] at hword
    cases hword

/-- The number of characters that are no white space. -/
def solid (tables : UnicodeTables) (t : List Char) : ℕ := t.countP (fun c => !tables.isSpace c)

theorem solid_append (s t : List Char) : solid tables (s ++ t) = solid tables s + solid tables t :=
  List.countP_append

theorem solid_spaces {min : ℕ} (ht : (spaces tables min).Describes t) : solid tables t = 0 := by
  refine List.countP_eq_zero.mpr (fun c hc => ?_)
  simp [ht.2 c hc]

theorem solid_letters {str : String} (ht : (letters tables str).Describes t)
    (hs : ∀ p ∈ str.toList, p.isLower = true) : solid tables t = str.toList.length := by
  rw [← length_letters ht]
  refine List.countP_eq_length.mpr (fun c hc => ?_)
  simp [isSpace_of_letters ht hs c hc]

theorem solid_authorizationHead (hh : AuthorizationHead tables prev h) : solid tables h = 20 := by
  obtain ⟨auth, _, rfl, hauth, ws, _, rfl, hws, colon, _, rfl, hcolon, ws', _, rfl, hws', bearer, ws'',
    rfl, hbearer, hws''⟩ := hh
  obtain rfl := describes_literal hcolon
  have hsign : solid tables ":".toList = 1 := by
    have hspace : tables.isSpace ':' = false := isSpace_url (by simp)
    simp [solid, hspace]
  rw [solid_append, solid_append, solid_append, solid_append, solid_append,
    solid_letters hauth (by decide), solid_spaces hws, hsign, solid_spaces hws',
    solid_letters hbearer (by decide), solid_spaces hws'']
  decide

theorem solid_bearerHead (hh : BearerHead tables prev h) : solid tables h = 6 := by
  obtain ⟨-, _, _, rfl, rfl, bearer, ws, rfl, hbearer, hws⟩ := hh
  rw [List.nil_append, solid_append, solid_letters hbearer (by decide), solid_spaces hws]
  decide

/-- What is around a head in another one is white space. -/
theorem isSpace_of_solid (hsame : solid tables (u ++ (h ++ k)) = solid tables h) :
    ∀ c ∈ k, tables.isSpace c = true := by
  rw [solid_append, solid_append] at hsame
  have hzero : solid tables k = 0 := by omega
  intro c hc
  simpa using List.countP_eq_zero.mp hzero c hc

theorem valueChar_of_isSpace (hc : tables.isSpace c = true) : valueChar tables c = false := by
  simp [valueChar, hc]

theorem tokenChar_of_isSpace (hc : tables.isSpace c = true) : tokenChar tables c = false := by
  by_contra htoken
  have hvalue : valueChar tables c = true := valueChar_of_tokenChar (by simpa using htoken)
  rw [valueChar_of_isSpace hc] at hvalue
  cases hvalue

theorem bracket_not_mem_letters {str : String} (ht : (letters tables str).Describes t)
    (hs : ∀ p ∈ str.toList, p.isLower = true) : '[' ∉ t ∧ ']' ∉ t := by
  have hnot : ∀ d ∈ ['[', ']'], d ∉ t := by
    intro d hd
    have hother : ∀ d ∈ ['[', ']'], d.toNat < 128 ∧ d.toLower.isLower = false := by decide
    refine not_mem_letters ht (hother d hd).1 (fun p hp => ⟨hs p hp, fun heq => ?_⟩)
    exact absurd (hs p hp) (by rw [← heq, (hother d hd).2]; simp)
  exact ⟨hnot '[' (by simp), hnot ']' (by simp)⟩

theorem bracket_not_mem_spaces {min : ℕ} (ht : (spaces tables min).Describes t) : '[' ∉ t ∧ ']' ∉ t :=
  ⟨not_mem_spaces ht (by decide) (by decide), not_mem_spaces ht (by decide) (by decide)⟩

theorem foreign_of (hopen : '[' ∉ h) (hclose : ']' ∉ h) (hc : c ∈ h) (hnot : c ∉ redacted) :
    Foreign redacted h := by
  refine ⟨fun d hd => ?_, fun d hd => ?_, c, hc, hnot⟩
  · obtain rfl : '[' = d := Option.some.inj hd
    exact hopen
  · obtain rfl : ']' = d := Option.some.inj hd
    exact hclose

theorem space_not_mem_redacted (hc : tables.isSpace c = true) : c ∉ redacted := fun hmem =>
  absurd (hc.symm.trans (isSpace_redacted c hmem)) (by simp)

theorem foreign_authorizationHead (hh : AuthorizationHead tables prev h) : Foreign redacted h := by
  obtain ⟨auth, _, rfl, hauth, ws, _, rfl, hws, colon, _, rfl, hcolon, ws', _, rfl, hws', bearer, ws'',
    rfl, hbearer, hws''⟩ := hh
  obtain rfl := describes_literal hcolon
  have hauth := bracket_not_mem_letters hauth (by decide)
  have hbearer := bracket_not_mem_letters hbearer (by decide)
  have hws := bracket_not_mem_spaces hws
  have hws' := bracket_not_mem_spaces hws'
  have hws'' := bracket_not_mem_spaces hws''
  refine foreign_of (c := ':') ?_ ?_ (by simp) (by decide)
  · simp [hauth.1, hbearer.1, hws.1, hws'.1, hws''.1]
  · simp [hauth.2, hbearer.2, hws.2, hws'.2, hws''.2]

theorem foreign_bearerHead (hh : BearerHead tables prev h) : Foreign redacted h := by
  obtain ⟨-, _, _, rfl, rfl, bearer, ws, rfl, hbearer, hws⟩ := hh
  obtain ⟨z, c, rfl, hc⟩ := concat_of_spaces hws
  have hbearer := bracket_not_mem_letters hbearer (by decide)
  have hws := bracket_not_mem_spaces hws
  refine foreign_of (c := c) ?_ ?_ (by simp) (space_not_mem_redacted hc)
  · rw [List.nil_append, List.mem_append, not_or]
    exact ⟨hbearer.1, hws.1⟩
  · rw [List.nil_append, List.mem_append, not_or]
    exact ⟨hbearer.2, hws.2⟩

theorem foreign_assignmentHead (hh : AssignmentHead tables prev h) : Foreign redacted h := by
  obtain ⟨key, ws, sign, ws', rfl, hkey, hws, hsign, hws'⟩ := assignment_before hh.2
  have hws := bracket_not_mem_spaces hws
  have hws' := bracket_not_mem_spaces hws'
  have hsigns : sign ∉ redacted ∧ '[' ≠ sign ∧ ']' ≠ sign := by
    rcases hsign with rfl | rfl <;> decide
  refine foreign_of (c := sign) ?_ ?_ (by simp) hsigns.1
  · simp [not_mem_keyword hkey, hws.1, hws'.1, hsigns.2.1]
  · simp [not_mem_keyword hkey, hws.2, hws'.2, hsigns.2.2]

variable (tables) in
theorem headRun_authorizationHeader : HeadRun (authorizationHeader tables) (replacement 0) redacted
    (valueChar tables) 1 (AuthorizationHead tables) where
  sound := by
    intro prev s m hm
    obtain ⟨a, ha, b, rfl, hmin, rfl⟩ := split_of_run isRun_many hm
    obtain ⟨g, -, rfl⟩ := mem_group.mp ha
    exact ⟨g.text, b, rfl, (text_of_mem ha).2, rfl, hmin, by simp [replacement, Match.group]⟩
  complete := by
    intro prev h b hh hmin
    have hmem : (⟨h, [(1, h)]⟩ : Match) ∈
        (authorizationHeader tables).before.allMatches prev (h ++ b) :=
      mem_group.mpr ⟨⟨h, []⟩, (mem_plain (by simp [letters, spaces, literal, Plain])).mpr
        ⟨rfl, List.prefix_append h b, hh⟩, rfl⟩
    exact first_ne_none_of_run isRun_many hmem hmin
  foreign := foreign_authorizationHead
  nested := by
    intro prev prev' u h k hh hall c hc
    have hsame := (solid_authorizationHead hall).trans (solid_authorizationHead hh).symm
    exact valueChar_of_isSpace (isSpace_of_solid hsame c (List.mem_of_mem_head? hc))
  pos := Nat.one_pos

variable (tables) in
theorem headRun_bearerToken : HeadRun (bearerToken tables) (replacement 1) redacted
    (tokenChar tables) 8 (BearerHead tables) where
  sound := by
    intro prev s m hm
    obtain ⟨a, ha, b, rfl, hmin, rfl⟩ := split_of_run isRun_many hm
    obtain ⟨start, hstart, rest, hrest, rfl⟩ := mem_seq.mp ha
    obtain ⟨g, hg, rfl⟩ := mem_group.mp hrest
    have hword := ne_of_mem_boundary hstart
    obtain rfl := mem_boundary hstart
    refine ⟨g.text, b, rfl, ⟨?_, (text_of_mem ha).2⟩, rfl, hmin, by simp [replacement, Match.group]⟩
    obtain ⟨bearer, ws, htext, hbearer, -⟩ := (text_of_mem hg).2
    obtain ⟨c, y, rfl, hc⟩ := startsWord_letters (s := "bearer") rfl (by decide) bearer hbearer
    simpa [htext, hc] using hword
  complete := by
    intro prev h b hh hmin
    obtain ⟨hprev, _, _, rfl, rfl, hdescribes⟩ := hh
    obtain ⟨bearer, ws, rfl, hbearer, hws⟩ := hdescribes
    obtain ⟨c, y, rfl, hc⟩ := startsWord_letters (s := "bearer") rfl (by decide) bearer hbearer
    have hstart : (⟨[], []⟩ : Match) ∈ (boundary tables.isWord).allMatches prev ((c :: y ++ ws) ++ b) :=
      mem_boundary_of (by simp [hprev, hc])
    have hgroup : (⟨c :: y ++ ws, [(1, c :: y ++ ws)]⟩ : Match) ∈
        (group 1 (seq (letters tables "bearer") (spaces tables 1))).allMatches prev
          ((c :: y ++ ws) ++ b) :=
      mem_group.mpr ⟨⟨c :: y ++ ws, []⟩, (mem_plain (by simp [letters, spaces, Plain])).mpr
        ⟨rfl, List.prefix_append _ b, c :: y, ws, rfl, hbearer, hws⟩, rfl⟩
    have hmem : (⟨c :: y ++ ws, [(1, c :: y ++ ws)]⟩ : Match) ∈
        (bearerToken tables).before.allMatches prev ((c :: y ++ ws) ++ b) := mem_seq_of hstart hgroup
    exact first_ne_none_of_run isRun_many hmem hmin
  foreign := foreign_bearerHead
  nested := by
    intro prev prev' u h k hh hall c hc
    have hsame := (solid_bearerHead hall).trans (solid_bearerHead hh).symm
    exact tokenChar_of_isSpace (isSpace_of_solid hsame c (List.mem_of_mem_head? hc))
  pos := by decide

variable (tables) in
theorem headRun_assignment : HeadRun (assignment tables) (replacement 2) redacted
    (valueChar tables) 1 (AssignmentHead tables) where
  sound := by
    intro prev s m hm
    obtain ⟨a, ha, b, rfl, hmin, rfl⟩ := split_of_run (isRun_group isRun_many) hm
    obtain ⟨key, signs, htext, hkey, hsigns⟩ := groups_assignment ha
    refine ⟨a.text, b, rfl, ⟨?_, (text_of_mem ha).2⟩, rfl, hmin, ?_⟩
    · obtain ⟨start, hstart, -⟩ := mem_seq.mp ha
      obtain ⟨word, ws, sign, ws', hbefore, hword, -⟩ := assignment_before (text_of_mem ha).2
      obtain ⟨c, y, rfl, hc⟩ := startsWord_keyword word hword
      simpa [hbefore, hc] using ne_of_mem_boundary hstart
    · simp [replacement, Match.group, List.lookup_append, hkey, hsigns, htext]
  complete := by
    intro prev h b hh hmin
    obtain ⟨a, ha, rfl⟩ := mem_assignment_before hh.2 hh.1 b
    exact first_ne_none_of_run (isRun_group isRun_many) ha hmin
  foreign := foreign_assignmentHead
  nested := by
    intro prev prev' u h k hh hall c hc
    obtain ⟨key, ws, sign, ws', rfl, -, -, hsign, -⟩ := assignment_before hh.2
    obtain ⟨key', ws₂, sign', ws₂', hsplit, hkey', hws₂, hsign', hws₂'⟩ := assignment_before hall.2
    have hsigns : sign ∉ key' ++ ws₂ ∧ sign ∉ ws₂' := by
      rw [List.mem_append, not_or]
      rcases hsign with rfl | rfl
      · exact ⟨⟨not_mem_keyword hkey' (by simp), not_mem_spaces hws₂ (by decide) (by decide)⟩,
          not_mem_spaces hws₂' (by decide) (by decide)⟩
      · exact ⟨⟨not_mem_keyword hkey' (by simp), not_mem_spaces hws₂ (by decide) (by decide)⟩,
          not_mem_spaces hws₂' (by decide) (by decide)⟩
    have hall : (key' ++ ws₂) ++ sign' :: ws₂' = (u ++ (key ++ ws)) ++ sign :: (ws' ++ k) := by
      rw [List.append_assoc, ← hsplit]
      simp
    obtain ⟨-, -, hrest⟩ := (List.append_cons_inj_of_notMem hsigns.1 hsigns.2).mp hall
    refine valueChar_of_isSpace (hws₂'.2 c ?_)
    rw [hrest]
    exact List.mem_append_right ws' (List.mem_of_mem_head? hc)
  pos := Nat.one_pos

/-! ### Around what a pass hides -/

/-- No word begins behind a hidden stretch that had none before, and nothing is hidden right behind a
    character of a mark; a key block begins and ends with a hyphen. -/
structure Neat (tables : UnicodeTables) (P : List Piece) : Prop where
  begins : ∀ pa v pb, P = pa ++ .hidden v :: pb →
    (∀ c ∈ (source pa).getLast?, c ∉ redacted) ∨ v.head? = some '-'
  ends : ∀ pa v pb, P = pa ++ .hidden v :: pb →
    v.getLast? = some '-' ∨ ∀ c ∈ (source pb).head?, tokenChar tables c = false

theorem Neat.unbroken {cls : CharClass} (hP : Neat tables P) (hcls : cls '-' = true) :
    Unbroken redacted cls P := by
  intro pa v pb hsplit
  exact (hP.begins pa v pb hsplit).imp_right (fun hhead => ⟨'-', hhead, by decide, hcls⟩)

/-- A word that begins in the output began in the text. -/
theorem Neat.wordStart (hP : Neat tables P) {pa : List Piece} (hsplit : P = pa ++ .kept c :: pb)
    (hc : tokenChar tables c = true)
    (hword : (lastOr none (written redacted pa)).any tables.isWord = false) :
    (lastOr none (source pa)).any tables.isWord = false := by
  rcases List.eq_nil_or_concat pa with rfl | ⟨pa, p, rfl⟩
  · exact hword
  · rw [List.concat_eq_append] at hsplit hword ⊢
    cases p with
    | kept d => simpa [written, source, lastOr] using hword
    | hidden v =>
      rcases hP.ends pa v (.kept c :: pb) (by rw [hsplit]; simp) with hlast | hhead
      · rw [source_append, source, source, List.append_nil, lastOr, List.getLast?_append, hlast]
        exact isWord_eq_false (by simp)
      · exact absurd (hc.symm.trans (hhead c rfl)) (by simp)

theorem Neat.bearerHead (hP : Neat tables P) : ∀ pa h pb, P = pa ++ (keep h ++ pb) →
    BearerHead tables (lastOr none (written redacted pa)) h →
      BearerHead tables (lastOr none (source pa)) h := by
  intro pa h pb hsplit hh
  obtain ⟨hword, hdescribes⟩ := hh
  refine ⟨?_, hdescribes⟩
  obtain ⟨_, _, rfl, rfl, bearer, ws, rfl, hbearer, -⟩ := hdescribes
  obtain ⟨c, x, rfl, -⟩ := startsWord_letters (s := "bearer") rfl (by decide) bearer hbearer
  have hc := tokenChar_of_letters hbearer (by decide) c (by simp)
  have hkept : P = pa ++ .kept c :: (keep (x ++ ws) ++ pb) := by simpa using hsplit
  exact hP.wordStart hkept hc hword

theorem Neat.assignmentHead (hP : Neat tables P) : ∀ pa h pb, P = pa ++ (keep h ++ pb) →
    AssignmentHead tables (lastOr none (written redacted pa)) h →
      AssignmentHead tables (lastOr none (source pa)) h := by
  intro pa h pb hsplit hh
  obtain ⟨hword, hdescribes⟩ := hh
  refine ⟨?_, hdescribes⟩
  obtain ⟨key, ws, sign, ws', rfl, hkey, -⟩ := assignment_before hdescribes
  obtain ⟨c, x, rfl, -⟩ := startsWord_keyword key hkey
  have hc := tokenChar_of_keyword hkey c (by simp)
  have hkept : P = pa ++ .kept c :: (keep (x ++ (ws ++ sign :: ws')) ++ pb) := by simpa using hsplit
  exact hP.wordStart hkept hc hword

/-- The second and third pass. -/
theorem neat_of_run {r : Regex} {cls : CharClass} {min : ℕ} {H : Option Char → List Char → Prop}
    (hlast : ∀ prev h, H prev h → ∃ z c, h = z ++ [c] ∧ c ∉ redacted)
    (hcls : ∀ c, cls c = false → tokenChar tables c = false)
    (hP : Rewrites r (RunCut H cls min) [] x P) : Neat tables P where
  begins := by
    intro pa v pb hsplit
    obtain ⟨pa', y, P', rfl, -, -, hbefore, -⟩ := hP.hidden_at hsplit
    obtain ⟨z, c, hz, hc⟩ := hlast _ _ hbefore
    refine .inl (fun d hd => ?_)
    rw [source_append, source_keep, hz, ← List.append_assoc, List.getLast?_concat] at hd
    rwa [← Option.some.inj hd]
  ends := by
    intro pa v pb hsplit
    obtain ⟨pa', y, P', rfl, rfl, rfl, -, hafter, hcore, -⟩ := hP.hidden_at hsplit
    refine .inr (fun c hc => hcls c (head?_of_takeWhile hcore c ?_))
    simpa [hafter] using hc

theorem neat_bearerToken (hP : Rewrites (bearerToken tables)
    (RunCut (BearerHead tables) (tokenChar tables) 8) [] x P) : Neat tables P := by
  refine neat_of_run (fun prev h hh => ?_) (fun c hc => hc) hP
  obtain ⟨-, _, _, rfl, rfl, bearer, ws, rfl, -, hws⟩ := hh
  obtain ⟨z, c, rfl, hc⟩ := concat_of_spaces hws
  exact ⟨bearer ++ z, c, by simp, space_not_mem_redacted hc⟩

theorem neat_assignment (hP : Rewrites (assignment tables)
    (RunCut (AssignmentHead tables) (valueChar tables) 1) [] x P) : Neat tables P := by
  refine neat_of_run (fun prev h hh => ?_) (fun c hc => ?_) hP
  · obtain ⟨key, ws, sign, ws', rfl, -, -, hsign, hws'⟩ := assignment_before hh.2
    rcases List.eq_nil_or_concat ws' with rfl | ⟨z, c, rfl⟩
    · exact ⟨key ++ ws, sign, by simp, by rcases hsign with rfl | rfl <;> decide⟩
    · exact ⟨key ++ (ws ++ sign :: z), c, by simp, space_not_mem_redacted (hws'.2 c (by simp))⟩
  · by_contra htoken
    rw [valueChar_of_tokenChar (by simpa using htoken)] at hc
    cases hc

/-! ### The first two patterns, settled -/

def HeaderSettled (tables : UnicodeTables) : List Char → Prop :=
  Settled (AuthorizationHead tables) (valueChar tables) 1 redacted

def BearerSettled (tables : UnicodeTables) : List Char → Prop :=
  Settled (BearerHead tables) (tokenChar tables) 8 redacted

def AssignmentSettled (tables : UnicodeTables) : List Char → Prop :=
  Settled (AssignmentHead tables) (valueChar tables) 1 redacted

theorem tokenChar_hyphen : tokenChar tables '-' = true :=
  tokenChar_of_formChar (by decide) (by decide) (by decide)

theorem valueChar_hyphen : valueChar tables '-' = true := valueChar_of_tokenChar tokenChar_hyphen

theorem head?_redacted : ∀ c ∈ redacted.head?, tokenChar tables c = false := by
  intro c hc
  obtain rfl : '[' = c := Option.some.inj hc
  exact tokenChar_bracket

/-- A neat pass leaves the second pattern settled. -/
theorem BearerSettled.written (hx : BearerSettled tables (source P)) (hP : Neat tables P) :
    BearerSettled tables (written redacted P) := by
  refine Settled.written hx redacted_ne_nil (fun _ _ hh => foreign_bearerHead hh) (by decide)
    (.inr head?_redacted) hP.bearerHead (hP.unbroken tokenChar_hyphen)
    (fun pa h v pb _ _ hmin => ?_)
  have hhead : ∀ c ∈ (redacted ++ Regex.written redacted pb).head?, tokenChar tables c = false :=
    fun c hc => head?_redacted c hc
  exact absurd hmin (takeWhile_of_head? hhead (by decide)).1

/-- So it does with the first and the third, if what it hides behind their heads begins with another
    character than the mark, or is all of a value. -/
theorem settled_value {H : Option Char → List Char → Prop}
    (hx : Settled H (valueChar tables) 1 redacted (source P)) (hP : Neat tables P)
    (hforeign : ∀ prev h, H prev h → Foreign redacted h)
    (hedge : ∀ pa h pb, P = pa ++ (keep h ++ pb) → H (lastOr none (written redacted pa)) h →
      H (lastOr none (source pa)) h)
    (hnext : ∀ pa h v pb, P = pa ++ (keep h ++ .hidden v :: pb) → H (lastOr none (source pa)) h →
      (∃ c ∈ v.head?, valueChar tables c = true ∧ c ≠ '[') ∨
        ∀ c ∈ (written redacted pb).head?, valueChar tables c = false) :
    Settled H (valueChar tables) 1 redacted (written redacted P) := by
  refine Settled.written hx redacted_ne_nil hforeign Nat.one_pos (.inl rfl) hedge
    (hP.unbroken valueChar_hyphen) (fun pa h v pb hsplit hh _ => ?_)
  rcases hnext pa h v pb hsplit hh with ⟨c, hc, hvalue, hbracket⟩ | hrest
  · obtain ⟨v, rfl⟩ : ∃ w, v = c :: w := List.head?_eq_some_iff.mp hc
    have hrun := hx (source pa) h ((c :: v) ++ source pb) (by rw [hsplit]; simp [source]) hh
      (by simp [hvalue])
    rw [List.cons_append, List.takeWhile_cons_of_pos hvalue] at hrun
    exact absurd (List.cons.inj (hrun : _ = '[' :: _)).1 hbracket
  · exact (takeWhile_of_head? hrest Nat.one_pos).2 redacted valueChar_redacted

end

end FleetPulse
