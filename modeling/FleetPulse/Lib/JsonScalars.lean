import FleetPulse.Lib.Json

/-! Objects of strings and numbers: written in one line, and read back.

    A number is kept as it is written, so a float has whatever digits its `repr` chooses:

        -   12   .25   e+16
        │   │     │     │
        │   │     │     exponent, may be absent
        │   │     fraction, may be absent
        │   whole part, without a leading zero
        sign, may be absent

    `loads_dumpsScalars` reads such an object back; `printable_dumpsScalars` says that its text has no
    line break, nor any other control character. -/

namespace Json

/-- A number in JSON's grammar. An integer has no more digits than the interpreter converts. -/
structure Numeral where
  negative : Bool
  whole : List Char
  fraction : List Char
  exponent : Option (Bool × List Char)
  whole_digits : ∀ c ∈ whole, isDigit c = true
  whole_ne_nil : whole ≠ []
  no_leading_zero : ∀ rest, whole = '0' :: rest → rest = []
  fraction_digits : ∀ c ∈ fraction, isDigit c = true
  exponent_digits : ∀ e ∈ exponent, e.2 ≠ [] ∧ ∀ c ∈ e.2, isDigit c = true
  short : fraction = [] → exponent = none → whole.length ≤ intMaxStrDigits

namespace Numeral
variable (n : Numeral)

def signText : List Char := if n.negative then ['-'] else []

def fractionText : List Char := if n.fraction = [] then [] else '.' :: n.fraction

def exponentText : List Char :=
  match n.exponent with
  | none => []
  | some (negative, digits) => 'e' :: (if negative then '-' else '+') :: digits

def text : List Char := n.signText ++ (n.whole ++ (n.fractionText ++ n.exponentText))

end Numeral

theorem isDigit_of_mem_toDigits {n : ℕ} {c : Char} (h : c ∈ Nat.toDigits 10 n) :
    isDigit c = true := by
  have hdigit := Nat.isDigit_of_mem_toDigits (by decide) (by decide) h
  simp only [Char.isDigit, isDigit, Bool.and_eq_true, decide_eq_true_eq, Char.le_def] at hdigit ⊢
  exact hdigit

theorem toDigits_no_leading_zero {n : ℕ} {rest : List Char} (h : Nat.toDigits 10 n = '0' :: rest) :
    rest = [] := by
  by_cases hlt : n < 10
  · rw [Nat.toDigits_of_lt_base hlt] at h
    exact (List.cons.inj h).2.symm
  · -- the last digit apart, the others are those of a positive number
    rw [Nat.toDigits_of_base_le (by decide) (not_lt.mp hlt)] at h
    cases hhigher : Nat.toDigits 10 (n / 10) with
    | nil => exact absurd hhigher Nat.toDigits_ne_nil
    | cons c digits =>
      rw [hhigher] at h
      obtain rfl : c = '0' := (List.cons.inj h).1
      obtain rfl := toDigits_no_leading_zero hhigher
      have hzero := Nat.ofDigitChars_ten_toDigits (n := n / 10)
      rw [hhigher] at hzero
      have hten : n / 10 = 0 := hzero.symm
      omega
termination_by n

/-- `int.__repr__`, unless the integer has too many digits. -/
def Numeral.ofInt (z : ℤ) : Option Numeral :=
  if h : (Nat.toDigits 10 z.natAbs).length ≤ intMaxStrDigits then
    some {
      negative := decide (z < 0)
      whole := Nat.toDigits 10 z.natAbs
      fraction := []
      exponent := none
      whole_digits := fun _ hc => isDigit_of_mem_toDigits hc
      whole_ne_nil := Nat.toDigits_ne_nil
      no_leading_zero := fun _ hrest => toDigits_no_leading_zero hrest
      fraction_digits := by simp
      exponent_digits := by simp
      short := fun _ _ => h }
  else none

/-- A value without brackets. -/
inductive Scalar where
  | str (s : String)
  | num (n : Numeral)

def Scalar.write : Scalar → List Char
  | .str s => quote s
  | .num n => n.text

def Scalar.read : Scalar → Text
  | .str s => .str (codePoints s)
  | .num n => .num n.text

/-- `"key":value`. -/
def scalarMember (kv : String × Scalar) : List Char := quote kv.1 ++ ':' :: kv.2.write

/-- `json.dumps(mapping, separators=(",", ":"))` on a mapping from strings to strings and numbers. -/
def dumpsScalars (kvs : List (String × Scalar)) : String :=
  String.ofList ('{' :: (List.intercalate [','] (kvs.map scalarMember) ++ ['}']))

/-- The mapping as it is read back. -/
def scalarsText (kvs : List (String × Scalar)) : List (CodePoints × Text) :=
  kvs.map (fun kv => (codePoints kv.1, kv.2.read))

/-! ### Reading a number -/

/-- A number may end here. -/
def NumMode.complete : NumMode → Bool
  | .zero | .int | .fraction | .exponent => true
  | _ => false

/-- An exponent may follow. -/
def NumMode.takesExponent : NumMode → Bool
  | .zero | .int | .fraction => true
  | _ => false

theorem NumMode.takesExponent.complete {m : NumMode} (h : m.takesExponent = true) :
    m.complete = true := by
  cases m with
  | zero | int | fraction => rfl
  | _ => cases h

theorem isDigit_ne {c d : Char} (hc : isDigit c = true) (hd : isDigit d = false) : c ≠ d := by
  rintro rfl
  rw [hc] at hd
  cases hd

section
variable (limit : ℕ) (stack : List Frame)

theorem run_value {orClose : Bool} {c : Char} {cs : List Char} {r : Reader}
    (h : feedValue limit stack orClose c = .ok r) :
    run limit (stack, .value orClose) (c :: cs) = run limit r cs := by
  rw [run_cons, show feed limit (stack, .value orClose) c = .ok r from h]
  rfl

theorem run_number {lexeme : List Char} {m : NumMode} {c : Char} {cs : List Char} {r : Reader}
    (h : feedNumber stack lexeme m c = .ok r) :
    run limit (stack, .number lexeme m) (c :: cs) = run limit r cs := by
  rw [run_cons, show feed limit (stack, .number lexeme m) c = .ok r from h]
  rfl

theorem feedValue_digit {c : Char} (orClose : Bool) (hc : isDigit c = true) :
    feedValue limit stack orClose c =
      .ok (stack, .number [c] (if c = '0' then .zero else .int)) := by
  have hspace : isSpace c = false := by
    simp [isSpace, isDigit_ne hc (show isDigit ' ' = false from rfl),
      isDigit_ne hc (show isDigit '\t' = false from rfl),
      isDigit_ne hc (show isDigit '\n' = false from rfl),
      isDigit_ne hc (show isDigit '\r' = false from rfl)]
  unfold feedValue
  simp only [hspace, Bool.false_eq_true, if_false, isDigit_ne hc (show isDigit '"' = false from rfl),
    isDigit_ne hc (show isDigit '[' = false from rfl), isDigit_ne hc (show isDigit '{' = false from rfl),
    isDigit_ne hc (show isDigit '-' = false from rfl), hc, if_true]
  split <;> rfl

/-- A run of digits in a place that goes on with digits. -/
theorem run_digits {m : NumMode}
    (hm : ∀ lexeme c, isDigit c = true →
      feedNumber stack lexeme m c = .ok (stack, .number (lexeme ++ [c]) m))
    {digits : List Char} (hdigits : ∀ c ∈ digits, isDigit c = true) (lexeme rest : List Char) :
    run limit (stack, .number lexeme m) (digits ++ rest) =
      run limit (stack, .number (lexeme ++ digits) m) rest := by
  induction digits generalizing lexeme with
  | nil => simp
  | cons c digits ih =>
    rw [List.cons_append, run_number limit stack (hm lexeme c (hdigits c (by simp))),
      ih (fun d hd => hdigits d (by simp [hd]))]
    simp

theorem feedNumber_int (lexeme : List Char) (c : Char) (hc : isDigit c = true) :
    feedNumber stack lexeme .int c = .ok (stack, .number (lexeme ++ [c]) .int) := by
  simp [feedNumber, hc]

theorem feedNumber_fraction (lexeme : List Char) (c : Char) (hc : isDigit c = true) :
    feedNumber stack lexeme .fraction c = .ok (stack, .number (lexeme ++ [c]) .fraction) := by
  simp [feedNumber, hc]

theorem feedNumber_exponent (lexeme : List Char) (c : Char) (hc : isDigit c = true) :
    feedNumber stack lexeme .exponent c = .ok (stack, .number (lexeme ++ [c]) .exponent) := by
  simp [feedNumber, hc]

variable (n : Numeral)

/-- The sign and the whole part. -/
theorem run_whole (orClose : Bool) (rest : List Char) :
    ∃ m, (m = .zero ∨ m = .int) ∧
      run limit (stack, .value orClose) (n.signText ++ (n.whole ++ rest)) =
        run limit (stack, .number (n.signText ++ n.whole) m) rest := by
  obtain ⟨c, digits, hwhole⟩ := List.exists_cons_of_ne_nil n.whole_ne_nil
  have hc : isDigit c = true := n.whole_digits c (by simp [hwhole])
  have hdigits : ∀ d ∈ digits, isDigit d = true :=
    fun d hd => n.whole_digits d (by simp [hwhole, hd])
  -- Behind the first digit, whichever sign is before it.
  have hrest : ∀ sign, ∃ m, (m = .zero ∨ m = .int) ∧
      run limit (stack, .number (sign ++ [c]) (if c = '0' then .zero else .int)) (digits ++ rest) =
        run limit (stack, .number (sign ++ c :: digits) m) rest := by
    intro sign
    by_cases hzero : c = '0'
    · have hnone : digits = [] := n.no_leading_zero digits (hzero ▸ hwhole)
      exact ⟨.zero, .inl rfl, by simp [hzero, hnone]⟩
    · refine ⟨.int, .inr rfl, ?_⟩
      rw [if_neg hzero, run_digits limit stack (feedNumber_int stack) hdigits]
      simp
  unfold Numeral.signText
  split
  · obtain ⟨m, hm, hrun⟩ := hrest ['-']
    refine ⟨m, hm, ?_⟩
    have hminus : feedValue limit stack orClose '-' = .ok (stack, .number ['-'] .minus) := rfl
    have hfirst : feedNumber stack ['-'] .minus c =
        .ok (stack, .number ['-', c] (if c = '0' then .zero else .int)) := by
      by_cases hzero : c = '0' <;> simp [feedNumber, hzero, hc]
    rw [hwhole, List.singleton_append, run_value limit stack hminus, List.cons_append,
      run_number limit stack hfirst]
    exact hrun
  · obtain ⟨m, hm, hrun⟩ := hrest []
    refine ⟨m, hm, ?_⟩
    rw [hwhole, List.nil_append, List.cons_append,
      run_value limit stack (feedValue_digit limit stack orClose hc)]
    exact hrun

theorem run_fraction {m : NumMode} (hm : m = .zero ∨ m = .int) (lexeme rest : List Char) :
    ∃ m', m'.takesExponent = true ∧ run limit (stack, .number lexeme m) (n.fractionText ++ rest) =
      run limit (stack, .number (lexeme ++ n.fractionText) m') rest := by
  unfold Numeral.fractionText
  split
  · exact ⟨m, by rcases hm with rfl | rfl <;> rfl, by simp⟩
  · next hne =>
    obtain ⟨c, digits, hfraction⟩ := List.exists_cons_of_ne_nil hne
    have hpoint : feedNumber stack lexeme m '.' = .ok (stack, .number (lexeme ++ ['.']) .point) := by
      rcases hm with rfl | rfl <;> rfl
    have hc : isDigit c = true := n.fraction_digits c (by simp [hfraction])
    have hfirst : feedNumber stack (lexeme ++ ['.']) .point c =
        .ok (stack, .number (lexeme ++ ['.'] ++ [c]) .fraction) := by
      simp [feedNumber, hc]
    refine ⟨.fraction, rfl, ?_⟩
    rw [hfraction, List.cons_append, run_number limit stack hpoint, List.cons_append,
      run_number limit stack hfirst, run_digits limit stack (feedNumber_fraction stack)
        (fun d hd => n.fraction_digits d (by simp [hfraction, hd]))]
    simp

theorem run_exponent {m : NumMode} (hm : m.takesExponent = true) (lexeme rest : List Char) :
    ∃ m', m'.complete = true ∧ run limit (stack, .number lexeme m) (n.exponentText ++ rest) =
      run limit (stack, .number (lexeme ++ n.exponentText) m') rest := by
  unfold Numeral.exponentText
  split
  · exact ⟨m, NumMode.takesExponent.complete hm, by simp⟩
  · next negative digits hexponent =>
    obtain ⟨hne, hdigits⟩ := n.exponent_digits _ hexponent
    obtain ⟨c, digits, rfl⟩ := List.exists_cons_of_ne_nil hne
    have he : feedNumber stack lexeme m 'e' = .ok (stack, .number (lexeme ++ ['e']) .e) := by
      cases m with
      | zero | int | fraction => rfl
      | _ => cases hm
    have hc : isDigit c = true := hdigits c (by simp)
    refine ⟨.exponent, rfl, ?_⟩
    have hsign : feedNumber stack (lexeme ++ ['e']) .e (if negative then '-' else '+') =
        .ok (stack, .number (lexeme ++ ['e'] ++ [if negative then '-' else '+']) .eSign) := by
      cases negative <;> rfl
    have hfirst : ∀ lexeme, feedNumber stack lexeme .eSign c =
        .ok (stack, .number (lexeme ++ [c]) .exponent) := by
      simp [feedNumber, hc]
    rw [List.cons_append, run_number limit stack he, List.cons_append,
      run_number limit stack hsign, List.cons_append, run_number limit stack (hfirst _),
      run_digits limit stack (feedNumber_exponent stack) (fun d hd => hdigits d (by simp [hd]))]
    simp

/-- The reader takes the whole number. -/
theorem run_numeral (orClose : Bool) (rest : List Char) :
    ∃ m, m.complete = true ∧ run limit (stack, .value orClose) (n.text ++ rest) =
      run limit (stack, .number n.text m) rest := by
  obtain ⟨m, hm, hwhole⟩ := run_whole limit stack n orClose (n.fractionText ++ (n.exponentText ++ rest))
  obtain ⟨m', hm', hfraction⟩ := run_fraction limit stack n hm (n.signText ++ n.whole)
    (n.exponentText ++ rest)
  obtain ⟨m'', hm'', hexponent⟩ := run_exponent limit stack n hm'
    (n.signText ++ n.whole ++ n.fractionText) rest
  refine ⟨m'', hm'', ?_⟩
  simp only [Numeral.text, List.append_assoc] at hwhole hfraction hexponent ⊢
  rw [hwhole, hfraction, hexponent]

/-- It is not an integer with too many digits. -/
theorem number_text : number n.text = .ok (.num n.text) := by
  refine if_neg ?_
  rintro ⟨hall, hlong⟩
  rw [List.all_eq_true] at hall
  have hfraction : n.fraction = [] := by
    by_contra hne
    have hpoint := hall '.' (by simp [Numeral.text, Numeral.fractionText, hne])
    cases hpoint
  have hexponent : n.exponent = none := by
    cases he : n.exponent with
    | none => rfl
    | some e =>
      have hletter := hall 'e' (by simp [Numeral.text, Numeral.exponentText, he])
      cases hletter
  have hdigits : n.text.filter isDigit = n.whole := by
    have hsign : n.signText.filter isDigit = [] := by
      unfold Numeral.signText
      split <;> rfl
    simp [Numeral.text, Numeral.fractionText, Numeral.exponentText, hfraction, hexponent, hsign,
      List.filter_eq_self.mpr n.whole_digits]
  have hshort := n.short hfraction hexponent
  rw [hdigits] at hlong
  omega

/-! ### Reading an object -/

/-- What may come behind a member. -/
def endsMember (c : Char) : Prop := c = ',' ∨ c = '}'

/-- A value is read up to the character behind it. -/
theorem run_scalar (v : Scalar) {c : Char} (hc : endsMember c) (rest : List Char) :
    run limit (stack, .value false) (v.write ++ c :: rest) =
      run limit (stack, .done v.read) (c :: rest) := by
  cases v with
  | str s =>
    have hquote : feedValue limit stack false '"' = .ok (stack, .string false [] .plain) := rfl
    rw [Scalar.write, quote, List.cons_append, List.cons_append, List.append_assoc,
      run_value limit stack hquote]
    exact run_quoted limit stack false s (c :: rest)
  | num n =>
    obtain ⟨m, hm, hrun⟩ := run_numeral limit stack n false (c :: rest)
    have hafter : feedNumber stack n.text m c = afterValue stack (.num n.text) c := by
      have hcomplete : afterNumber stack n.text m c = afterValue stack (.num n.text) c := by
        cases m with
        | zero | int | fraction | exponent => rw [afterNumber, number_text]; rfl
        | _ => cases hm
      rcases hc with rfl | rfl <;> cases m <;> exact hcomplete
    rw [Scalar.write, hrun, run_cons, run_cons, feed, feed]
    simp only [hafter, Scalar.read]

/-- One member of an object. -/
theorem run_scalarMember (kvs : List (CodePoints × Text)) (key : CodePoints) (orClose : Bool)
    (kv : String × Scalar) {c : Char} (hc : endsMember c) (rest : List Char) :
    run limit (.obj kvs key :: stack, .key orClose) (scalarMember kv ++ c :: rest) =
      run limit (.obj kvs (codePoints kv.1) :: stack, .done kv.2.read) (c :: rest) := by
  have hcolon : ∀ cs, run limit (.obj kvs (codePoints kv.1) :: stack, .colon) (':' :: cs) =
      run limit (.obj kvs (codePoints kv.1) :: stack, .value false) cs := fun _ => rfl
  have hopen : ∀ cs, run limit (.obj kvs key :: stack, .key orClose) ('"' :: cs) =
      run limit (.obj kvs key :: stack, .string true [] .plain) cs := fun _ => rfl
  rw [scalarMember, quote, List.cons_append, List.append_assoc, List.cons_append, hopen,
    List.append_assoc, List.singleton_append, run_quoted]
  change run limit (.obj kvs (codePoints kv.1) :: stack, .colon) _ = _
  rw [List.cons_append, hcolon, run_scalar limit _ kv.2 hc]

omit limit stack in
/-- A member with a new key is the last one. -/
theorem setMember_scalarsText {kv : String × Scalar} {kvs done : List (String × Scalar)}
    (h : ((done ++ kv :: kvs).map Prod.fst).Nodup) :
    setMember (scalarsText done) (codePoints kv.1) kv.2.read = scalarsText (done ++ [kv]) := by
  have hnew : codePoints kv.1 ∉ (scalarsText done).map Prod.fst := by
    intro hmem
    simp only [scalarsText, List.map_map, List.mem_map, Function.comp_apply] at hmem
    obtain ⟨kv', hkv', heq⟩ := hmem
    rw [List.map_append, List.nodup_append] at h
    exact h.2.2 kv'.1 (List.mem_map_of_mem hkv') kv.1 (by simp) (codePoints_injective heq)
  rw [setMember_new _ hnew]
  simp [scalarsText]

/-- The members that are left, and the closing brace. -/
theorem run_scalarMembers (kv : String × Scalar) (kvs done : List (String × Scalar))
    (key : CodePoints) (orClose : Bool) (h : ((done ++ kv :: kvs).map Prod.fst).Nodup) :
    run limit (.obj (scalarsText done) key :: stack, .key orClose)
      (List.intercalate [','] ((kv :: kvs).map scalarMember) ++ ['}']) =
      .ok (stack, .done (.obj (scalarsText (done ++ kv :: kvs)))) := by
  have hset := setMember_scalarsText h
  induction kvs generalizing kv done key orClose with
  | nil =>
    have hclose : run limit (.obj (scalarsText done) (codePoints kv.1) :: stack, .done kv.2.read)
        ['}'] = .ok (stack, .done (.obj (setMember (scalarsText done) (codePoints kv.1) kv.2.read))) :=
      rfl
    rw [List.map_cons, List.map_nil, List.intercalate_singleton,
      run_scalarMember limit stack _ key orClose kv (.inr rfl) [], hclose, hset]
  | cons kv' kvs ih =>
    have hcomma : ∀ cs, run limit (.obj (scalarsText done) (codePoints kv.1) :: stack,
        .done kv.2.read) (',' :: cs) = run limit (.obj (setMember (scalarsText done)
          (codePoints kv.1) kv.2.read) [] :: stack, .key false) cs := fun _ => rfl
    have hnext : ((done ++ [kv] ++ kv' :: kvs).map Prod.fst).Nodup := by
      simpa using h
    rw [List.map_cons, List.map_cons, List.intercalate_cons_cons, List.append_assoc,
      List.append_assoc, List.singleton_append,
      run_scalarMember limit stack _ key orClose kv (.inl rfl), hcomma, hset, ← List.map_cons,
      ih kv' (done ++ [kv]) [] false hnext (setMember_scalarsText hnext)]
    simp

end

/-- Reading a written object with distinct keys gives that object, at any recursion limit. -/
theorem loads_dumpsScalars (limit : ℕ) (kvs : List (String × Scalar))
    (h : (kvs.map Prod.fst).Nodup) : loads limit (dumpsScalars kvs) = .ok (.obj (scalarsText kvs)) := by
  have hopen : ∀ cs, run limit ([], .value false) ('{' :: cs) =
      run limit ([.obj [] []], .key true) cs := fun _ => rfl
  have hbom : ('{').toNat ≠ 0xfeff := by decide
  rw [loads, dumpsScalars, String.toList_ofList]
  simp only [hbom, if_false, hopen]
  cases kvs with
  | nil => rfl
  | cons kv kvs =>
    have hrun := run_scalarMembers limit [] kv kvs [] [] true h
    rw [show scalarsText [] = [] from rfl] at hrun
    rw [hrun]
    rfl

/-! ### One line -/

/-- Printable ASCII. -/
def isPrintable (c : Char) : Bool := 32 ≤ c.toNat && c.toNat ≤ 126

theorem isPrintable_of_isDigit {c : Char} (h : isDigit c = true) : isPrintable c = true := by
  simp only [isDigit, isPrintable, Bool.and_eq_true, decide_eq_true_eq, Char.le_def,
    UInt32.le_iff_toNat_le] at h ⊢
  change 48 ≤ c.toNat ∧ c.toNat ≤ 57 at h
  omega

theorem printable_hex4 (n : ℕ) : ∀ c ∈ hex4 n, isPrintable c = true := by
  have hdigit : ∀ d : Fin 16, isPrintable (Values.hexDigit d) = true := by decide
  intro c hc
  obtain ⟨d, -, rfl⟩ := List.mem_map.mp hc
  exact hdigit _

theorem printable_escapeChar (c : Char) : ∀ d ∈ escapeChar c, isPrintable d = true := by
  have hescape : ∀ n, ∀ d ∈ '\\' :: 'u' :: hex4 n, isPrintable d = true := by
    intro n d hd
    rcases List.mem_cons.mp hd with rfl | hd
    · rfl
    · rcases List.mem_cons.mp hd with rfl | hd
      · rfl
      · exact printable_hex4 n d hd
  have hshort : ∀ e, isPrintable e = true → ∀ d ∈ ['\\', e], isPrintable d = true := by
    intro e he d hd
    rcases List.mem_cons.mp hd with rfl | hd
    · rfl
    · exact List.mem_singleton.mp hd ▸ he
  unfold escapeChar
  split_ifs with h1 h2 h3 h4 h5 h6 h7 h8 h9
  · exact hshort _ rfl
  · exact hshort _ rfl
  · exact hshort _ rfl
  · exact hshort _ rfl
  · exact hshort _ rfl
  · exact hshort _ rfl
  · exact hshort _ rfl
  · simpa [isPrintable] using h8
  · exact hescape _
  · intro d hd
    exact (List.mem_append.mp hd).elim (hescape _ d) (hescape _ d)

theorem printable_quote (s : String) : ∀ c ∈ quote s, isPrintable c = true := by
  intro c hc
  rw [quote, List.mem_append, List.mem_cons, List.mem_singleton] at hc
  rcases hc with (rfl | hc) | rfl
  · rfl
  · obtain ⟨d, -, hd⟩ := List.mem_flatMap.mp hc
    exact printable_escapeChar d c hd
  · rfl

theorem Numeral.printable_text (n : Numeral) : ∀ c ∈ n.text, isPrintable c = true := by
  have hdigits : ∀ {ds : List Char}, (∀ c ∈ ds, isDigit c = true) → ∀ c ∈ ds, isPrintable c = true :=
    fun h c hc => isPrintable_of_isDigit (h c hc)
  intro c hc
  simp only [text, List.mem_append] at hc
  rcases hc with hc | hc | hc | hc
  · unfold signText at hc
    split at hc
    · obtain rfl := List.mem_singleton.mp hc
      rfl
    · cases hc
  · exact hdigits n.whole_digits c hc
  · unfold fractionText at hc
    split at hc
    · cases hc
    · rcases List.mem_cons.mp hc with rfl | hc
      · rfl
      · exact hdigits n.fraction_digits c hc
  · unfold exponentText at hc
    split at hc
    · cases hc
    · next negative digits hexponent =>
      rcases List.mem_cons.mp hc with rfl | hc
      · rfl
      · rcases List.mem_cons.mp hc with rfl | hc
        · cases negative <;> rfl
        · exact hdigits (n.exponent_digits _ hexponent).2 c hc

theorem Scalar.printable_write (v : Scalar) : ∀ c ∈ v.write, isPrintable c = true := by
  cases v with
  | str s => exact printable_quote s
  | num n => exact n.printable_text

theorem printable_scalarMember (kv : String × Scalar) :
    ∀ c ∈ scalarMember kv, isPrintable c = true := by
  intro c hc
  rcases List.mem_append.mp hc with hc | hc
  · exact printable_quote kv.1 c hc
  · rcases List.mem_cons.mp hc with rfl | hc
    · rfl
    · exact kv.2.printable_write c hc

theorem mem_of_mem_intercalate {α : Type} {sep : List α} {ls : List (List α)} {a : α}
    (h : a ∈ List.intercalate sep ls) : a ∈ sep ∨ ∃ l ∈ ls, a ∈ l := by
  induction ls with
  | nil => cases h
  | cons l ls ih =>
    cases ls with
    | nil =>
      rw [List.intercalate_singleton] at h
      exact .inr ⟨l, by simp, h⟩
    | cons l' ls =>
      rw [List.intercalate_cons_cons, List.mem_append, List.mem_append] at h
      rcases h with (h | h) | h
      · exact .inr ⟨l, by simp, h⟩
      · exact .inl h
      · rcases ih h with h | ⟨l'', hl, h⟩
        · exact .inl h
        · exact .inr ⟨l'', List.mem_cons_of_mem _ hl, h⟩

theorem printable_dumpsScalars (kvs : List (String × Scalar)) :
    ∀ c ∈ (dumpsScalars kvs).toList, isPrintable c = true := by
  intro c hc
  rw [dumpsScalars, String.toList_ofList, List.mem_cons, List.mem_append, List.mem_singleton] at hc
  rcases hc with rfl | hc | rfl
  · rfl
  · rcases mem_of_mem_intercalate hc with hc | ⟨l, hl, hc⟩
    · obtain rfl := List.mem_singleton.mp hc
      rfl
    · obtain ⟨kv, -, rfl⟩ := List.mem_map.mp hl
      exact printable_scalarMember kv c hc
  · rfl

end Json
