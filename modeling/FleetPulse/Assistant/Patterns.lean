import FleetPulse.Assistant.Redaction

/-! What the texts that the five patterns match are made of.

    None of the first four can contain two hyphens and, later, white space (`KeepsDashes`), so none of
    their matches runs over the line `-----BEGIN ` or over `-----END `. And a match of the first, third
    or fourth begins with a letter and has a `:` or `=` before its second hyphen (`Opens`), so none
    begins inside a key block, which has neither sign. -/

namespace FleetPulse
open Regex

/-- One of the substitutions. -/
def pass (r : Regex) (index : ℕ) (text : List Char) : List Char :=
  (r.subn (replacement index) 0 none text).1

section
variable {tables : UnicodeTables} {t : List Char}

theorem redact_text (value : String) : (SecretRedactor.redact tables value).text =
    String.ofList (pass privateKey 4 (pass (databaseUrl tables) 3 (pass (assignment tables) 2
      (pass (bearerToken tables) 1 (pass (authorizationHeader tables) 0 value.toList))))) := rfl

/-! ### Parts of the patterns -/

theorem describes_literal {s : String} (h : (literal s).Describes t) : t = s.toList := by
  simp only [literal, Describes, List.forall₂_map_left_iff, decide_eq_true_eq] at h
  have hsame : List.Forall₂ (fun p c => p = c) s.toList t := h.imp (fun _ _ => Eq.symm)
  rw [List.forall₂_eq_eq_eq] at hsame
  exact hsame.symm

theorem beginsWith_literal : ∀ {ps s : List Char},
    beginsWith (ps.map (fun p c => decide (c = p))) s = true ↔ ps <+: s
  | [], s => by simp [beginsWith]
  | p :: ps, [] => by simp [beginsWith]
  | p :: ps, c :: s => by
      simp only [List.map_cons, beginsWith, Bool.and_eq_true, decide_eq_true_eq, beginsWith_literal,
        List.cons_prefix_cons]
      exact and_congr_left (fun _ => eq_comm)

theorem mem_literal {str : String} {prev : Option Char} {s : List Char} {m : Match} :
    m ∈ (literal str).allMatches prev s ↔ m = ⟨str.toList, []⟩ ∧ str.toList <+: s := by
  rw [literal, mem_chars, beginsWith_literal, List.length_map]
  exact and_congr_left (fun h => by rw [← List.prefix_iff_eq_take.mp h])

/-- A character in ASCII that is none of the letters of a word is in no text of the word. -/
theorem not_mem_letters {s : String} {x : Char} (h : (letters tables s).Describes t)
    (hx : x.toNat < 128) (hs : ∀ p ∈ s.toList, p.isLower = true ∧ x.toLower ≠ p) : x ∉ t := by
  intro hmem
  simp only [letters, Describes, List.forall₂_map_left_iff] at h
  generalize s.toList = ps at h hs
  obtain ⟨p, hp, hletter⟩ : ∃ p ∈ ps, tables.isLetter p x = true := by
    induction h with
    | nil => cases hmem
    | @cons p c ps t hc _ ih =>
      rcases List.mem_cons.mp hmem with rfl | hmem
      · exact ⟨p, List.mem_cons_self .., hc⟩
      · obtain ⟨q, hq, hletter⟩ := ih hmem (fun q hq => hs q (List.mem_cons_of_mem p hq))
        exact ⟨q, List.mem_cons_of_mem p hq, hletter⟩
  rw [tables.isLetter_ascii p x (hs p hp).1 hx, decide_eq_true_eq] at hletter
  exact (hs p hp).2 hletter

theorem length_letters {s : String} (h : (letters tables s).Describes t) :
    t.length = s.toList.length := by
  have hlength := h.length_eq
  rw [List.length_map] at hlength
  exact hlength.symm

theorem not_mem_spaces {min : ℕ} {x : Char} (h : (spaces tables min).Describes t)
    (hx : x.toNat < 128)
    (hspace : (x = ' ' || (9 ≤ x.toNat && x.toNat ≤ 13) || (28 ≤ x.toNat && x.toNat ≤ 31)) = false) :
    x ∉ t := by
  intro hmem
  have hspaces := h.2 x hmem
  rw [tables.isSpace_ascii x hx, hspace] at hspaces
  cases hspaces

theorem isSpace_blank : tables.isSpace ' ' = true :=
  (tables.isSpace_ascii ' ' (by decide)).trans (by decide)

theorem exists_cons_of_length {n : ℕ} (h : t.length = n + 1) : ∃ c x, t = c :: x := by
  cases t with
  | nil => cases h
  | cons c x => exact ⟨c, x, rfl⟩

/-- A text of a keyword has at most one hyphen, and does not begin with it. -/
theorem describes_keyword (h : (keyword tables).Describes t) :
    t.count '-' ≤ 1 ∧ ∃ c x, t = c :: x ∧ c ≠ '-' := by
  have hword : ∀ {s : String} {u : List Char} {n : ℕ}, (letters tables s).Describes u →
      s.toList.length = n + 1 → (∀ p ∈ s.toList, p.isLower = true ∧ '-'.toLower ≠ p) →
      u.count '-' = 0 ∧ ∃ c x, u = c :: x ∧ c ≠ '-' := by
    intro s u n hu hlength hs
    have hnot := not_mem_letters hu (by decide) hs
    obtain ⟨c, x, rfl⟩ := exists_cons_of_length ((length_letters hu).trans hlength)
    exact ⟨List.count_eq_zero_of_not_mem hnot, c, x, rfl, fun hc => hnot (hc ▸ List.mem_cons_self ..)⟩
  rcases h with ⟨api, _, rfl, hapi, sep, key, rfl, hsep, hkey⟩ | h | h | h | h
  · obtain ⟨hcount, c, x, rfl, hc⟩ := hword hapi rfl (by decide)
    refine ⟨?_, c, x ++ (sep ++ key), rfl, hc⟩
    have hkeyCount := (hword hkey rfl (by decide)).1
    have hsepLength : sep.length ≤ 1 := by
      rcases hsep with hsep | hsep <;> exact hsep.length_eq.symm.le.trans (by simp)
    have := List.count_le_length (a := '-') (l := sep)
    rw [List.count_append, List.count_append]
    omega
  · exact ⟨(hword h rfl (by decide)).1.le.trans (by omega), (hword h rfl (by decide)).2⟩
  · exact ⟨(hword h rfl (by decide)).1.le.trans (by omega), (hword h rfl (by decide)).2⟩
  · exact ⟨(hword h rfl (by decide)).1.le.trans (by omega), (hword h rfl (by decide)).2⟩
  · exact ⟨(hword h rfl (by decide)).1.le.trans (by omega), (hword h rfl (by decide)).2⟩

/-! ### Hyphens -/

/-- Up to the last part, which has no blank, there is at most one hyphen. -/
def KeepsDashes (r : Regex) : Prop := ∀ t, r.Describes t →
  ∃ head run, t = head ++ run ∧ head.count '-' ≤ 1 ∧ ' ' ∉ run

/-- A first character that is no hyphen, and then a `:` or `=` before the second hyphen. -/
def Opens (r : Regex) : Prop := ∀ t, r.Describes t →
  ∃ c x a y, t = c :: x ++ a :: y ∧ c ≠ '-' ∧ x.count '-' ≤ 1 ∧ (a = ':' ∨ a = '=')

theorem isSpace_of_valueChar {c : Char} (h : valueChar tables c = true) :
    tables.isSpace c = false := by
  simp only [valueChar, Bool.and_eq_true, Bool.not_eq_true'] at h
  exact h.1.1

theorem blank_not_mem (h : ∀ c ∈ t, tables.isSpace c = false) : ' ' ∉ t := fun hmem =>
  absurd ((h ' ' hmem).symm.trans isSpace_blank) Bool.false_ne_true

theorem authorizationHeader_parts (h : (authorizationHeader tables).Describes t) :
    ∃ c x y run, t = (c :: x ++ ':' :: y) ++ run ∧ '-' ∉ c :: x ∧ '-' ∉ y ∧
      ∀ c ∈ run, valueChar tables c = true := by
  obtain ⟨_, run, rfl, ⟨auth, _, rfl, hauth, ws, _, rfl, hws, colon, _, rfl, hcolon, ws', _, rfl,
    hws', bearer, ws'', rfl, hbearer, hws''⟩, hrun⟩ := h
  obtain rfl := describes_literal hcolon
  have hauthDash : '-' ∉ auth := not_mem_letters hauth (by decide) (by decide)
  obtain ⟨c, x, rfl⟩ := exists_cons_of_length (length_letters hauth)
  refine ⟨c, x ++ ws, ws' ++ (bearer ++ ws''), run, by simp, ?_, ?_, hrun.2⟩
  · simp only [List.mem_cons, List.mem_append, not_or] at hauthDash ⊢
    exact ⟨hauthDash.1, hauthDash.2, not_mem_spaces hws (by decide) (by decide)⟩
  · simp only [List.mem_append, not_or]
    exact ⟨not_mem_spaces hws' (by decide) (by decide),
      not_mem_letters hbearer (by decide) (by decide),
      not_mem_spaces hws'' (by decide) (by decide)⟩

theorem keepsDashes_authorizationHeader : KeepsDashes (authorizationHeader tables) := by
  intro t h
  obtain ⟨c, x, y, run, rfl, hx, hy, hrun⟩ := authorizationHeader_parts h
  refine ⟨c :: x ++ ':' :: y, run, rfl, ?_,
    blank_not_mem (fun d hd => isSpace_of_valueChar (hrun d hd))⟩
  rw [List.count_append, List.count_eq_zero_of_not_mem hx, List.count_cons_of_ne (by decide),
    List.count_eq_zero_of_not_mem hy]
  omega

theorem opens_authorizationHeader : Opens (authorizationHeader tables) := by
  intro t h
  obtain ⟨c, x, y, run, rfl, hx, -, -⟩ := authorizationHeader_parts h
  rw [List.mem_cons, not_or] at hx
  exact ⟨c, x, ':', y ++ run, by simp, Ne.symm hx.1,
    (List.count_eq_zero_of_not_mem hx.2).le.trans (by omega), Or.inl rfl⟩

theorem assignment_parts (h : (assignment tables).Describes t) :
    ∃ c x a y run, t = (c :: x ++ a :: y) ++ run ∧ c ≠ '-' ∧ (c :: x).count '-' ≤ 1 ∧
      (a = ':' ∨ a = '=') ∧ '-' ∉ y ∧ ∀ c ∈ run, valueChar tables c = true := by
  obtain ⟨_, run, rfl, ⟨_, _, rfl, rfl, key, _, rfl, hkey, _, _, rfl, rfl, ws, _, rfl, hws, sign, ws',
    rfl, hsign, hws'⟩, hrun⟩ := h
  obtain ⟨hcount, c, x, rfl, hc⟩ := describes_keyword hkey
  obtain ⟨a, rfl, ha⟩ : ∃ a, sign = [a] ∧ (a = ':' ∨ a = '=') := by
    cases hsign with
    | cons ha hnil =>
      cases hnil
      exact ⟨_, rfl, by simpa using ha⟩
  refine ⟨c, x ++ ws, a, ws', run, by simp, hc, ?_, ha,
    not_mem_spaces hws' (by decide) (by decide), hrun.2⟩
  rw [← List.cons_append, List.count_append,
    List.count_eq_zero_of_not_mem (not_mem_spaces hws (by decide) (by decide))]
  exact hcount

theorem keepsDashes_assignment : KeepsDashes (assignment tables) := by
  intro t h
  obtain ⟨c, x, a, y, run, rfl, -, hcount, ha, hy, hrun⟩ := assignment_parts h
  refine ⟨c :: x ++ a :: y, run, rfl, ?_,
    blank_not_mem (fun d hd => isSpace_of_valueChar (hrun d hd))⟩
  have hsign : '-' ∉ a :: y := by
    rw [List.mem_cons, not_or]
    exact ⟨by rcases ha with rfl | rfl <;> decide, hy⟩
  rw [List.count_append, List.count_eq_zero_of_not_mem hsign]
  exact hcount

theorem opens_assignment : Opens (assignment tables) := by
  intro t h
  obtain ⟨c, x, a, y, run, rfl, hc, hcount, ha, -, -⟩ := assignment_parts h
  rw [List.count_cons_of_ne hc] at hcount
  exact ⟨c, x, a, y ++ run, by simp, hc, hcount, ha⟩

theorem databaseUrl_parts (h : (databaseUrl tables).Describes t) :
    ∃ c x host pass, t = (c :: x ++ "://".toList) ++ (host ++ ':' :: pass ++ ['@']) ∧
      '-' ∉ c :: x ∧ (∀ d ∈ host, tables.isSpace d = false ∧ d ≠ ':' ∧ d ≠ '@') ∧
      ∀ d ∈ pass, tables.isSpace d = false ∧ d ≠ '@' := by
  obtain ⟨_, _, rfl, ⟨word, _, rfl, hword, ql, _, rfl, hql, slashes, _, rfl, hslashes, host, colon, rfl,
    hhost, hcolon⟩, pass, at', rfl, hpass, hat⟩ := h
  obtain rfl := describes_literal hslashes
  obtain rfl := describes_literal hcolon
  obtain rfl := describes_literal hat
  have hwordDash : '-' ∉ word := not_mem_letters hword (by decide) (by decide)
  have hqlDash : '-' ∉ ql := by
    rcases hql with hql | hql
    · exact not_mem_letters hql (by decide) (by decide)
    · rw [List.forall₂_nil_left_iff.mp hql]
      exact List.not_mem_nil
  obtain ⟨c, x, rfl⟩ := exists_cons_of_length (length_letters hword)
  refine ⟨c, x ++ ql, host, pass, by simp, ?_, fun d hd => ?_, fun d hd => ?_⟩
  · simp only [List.mem_cons, List.mem_append, not_or] at hwordDash ⊢
    exact ⟨hwordDash.1, hwordDash.2, hqlDash⟩
  · have hclass := hhost.2 d hd
    simp only [Bool.and_eq_true, Bool.not_eq_true', decide_eq_true_eq] at hclass
    exact ⟨hclass.1.1.1, hclass.1.1.2, hclass.2⟩
  · have hclass := hpass.2 d hd
    simp only [Bool.and_eq_true, Bool.not_eq_true', decide_eq_true_eq] at hclass
    exact ⟨hclass.1.1, hclass.1.2⟩

theorem isSpace_url {c : Char} (h : c ∈ [':', '/', '@']) : tables.isSpace c = false := by
  simp only [List.mem_cons, List.not_mem_nil, or_false] at h
  rcases h with rfl | rfl | rfl
  · exact (tables.isSpace_ascii ':' (by decide)).trans (by decide)
  · exact (tables.isSpace_ascii '/' (by decide)).trans (by decide)
  · exact (tables.isSpace_ascii '@' (by decide)).trans (by decide)

theorem keepsDashes_databaseUrl : KeepsDashes (databaseUrl tables) := by
  intro t h
  obtain ⟨c, x, host, pass, rfl, hx, hhost, hpass⟩ := databaseUrl_parts h
  refine ⟨c :: x, "://".toList ++ (host ++ ':' :: pass ++ ['@']), by simp,
    (List.count_eq_zero_of_not_mem hx).le.trans (by omega),
    blank_not_mem (fun d hd => (?_ : tables.isSpace d = false))⟩
  simp only [List.mem_append, List.mem_cons, List.not_mem_nil, or_false] at hd
  rcases hd with hd | (hd | rfl | hd) | rfl
  · exact isSpace_url (by revert hd; decide +revert)
  · exact (hhost d hd).1
  · exact isSpace_url (by decide)
  · exact (hpass d hd).1
  · exact isSpace_url (by decide)

theorem opens_databaseUrl : Opens (databaseUrl tables) := by
  intro t h
  obtain ⟨c, x, host, pass, rfl, hx, -, -⟩ := databaseUrl_parts h
  rw [List.mem_cons, not_or] at hx
  exact ⟨c, x, ':', "//".toList ++ (host ++ ':' :: pass ++ ['@']), by simp, Ne.symm hx.1,
    (List.count_eq_zero_of_not_mem hx.2).le.trans (by omega), Or.inl rfl⟩

theorem bearerToken_parts (h : (bearerToken tables).Describes t) :
    ∃ bearer ws run, t = bearer ++ ws ++ run ∧ (letters tables "bearer").Describes bearer ∧
      (spaces tables 1).Describes ws ∧ 8 ≤ run.length ∧ ∀ c ∈ run, tokenChar tables c = true := by
  obtain ⟨_, run, rfl, ⟨_, _, rfl, rfl, bearer, ws, rfl, hbearer, hws⟩, hlength, hrun⟩ := h
  exact ⟨bearer, ws, run, by simp, hbearer, hws, hlength, hrun⟩

/-- In ASCII, the case of a letter makes no difference to the class. -/
theorem tokenChar_ascii {c : Char} (h : c.toNat < 128) : tokenChar tables c =
    (isAsciiAlnum c || ['.', '_', '~', '+', '/', '=', '-'].contains c) := by
  have hletters : ∀ n : Fin 128, "abcdefghijklmnopqrstuvwxyz".toList.any
      (fun p => decide ((Char.ofNat n).toLower = p)) = true → isAsciiAlnum (Char.ofNat n) = true := by
    decide +kernel
  have hlower : ∀ p ∈ "abcdefghijklmnopqrstuvwxyz".toList, p.isLower = true := by decide
  have hany : "abcdefghijklmnopqrstuvwxyz".toList.any (fun p => tables.isLetter p c) = true →
      isAsciiAlnum c = true := by
    intro hany
    obtain ⟨p, hp, hletter⟩ := List.any_eq_true.mp hany
    rw [tables.isLetter_ascii p c (hlower p hp) h] at hletter
    have hsame := hletters ⟨c.toNat, h⟩
    rw [Char.ofNat_toNat] at hsame
    exact hsame (List.any_eq_true.mpr ⟨p, hp, hletter⟩)
  rw [tokenChar]
  cases hcase : "abcdefghijklmnopqrstuvwxyz".toList.any (fun p => tables.isLetter p c) with
  | false => rw [Bool.or_false]
  | true => rw [hany hcase, Bool.or_true, Bool.true_or]

theorem keepsDashes_bearerToken : KeepsDashes (bearerToken tables) := by
  intro t h
  obtain ⟨bearer, ws, run, rfl, hbearer, hws, -, hrun⟩ := bearerToken_parts h
  refine ⟨bearer ++ ws, run, rfl, ?_, fun hmem => ?_⟩
  · rw [List.count_append, List.count_eq_zero_of_not_mem (not_mem_letters hbearer (by decide)
      (by decide)), List.count_eq_zero_of_not_mem (not_mem_spaces hws (by decide) (by decide))]
    omega
  · exact absurd ((tokenChar_ascii (by decide)).symm.trans (hrun ' ' hmem)) (by decide)

end

end FleetPulse
