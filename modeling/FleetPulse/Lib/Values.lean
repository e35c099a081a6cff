import Mathlib

/-! Values of a dynamic language: floats with their special values, `max` with a key, 128-bit
    identifiers in their hyphenated text form, and calendar date-times in their ISO 8601 form.

    The finite doubles are rationals and nothing here rounds, so a finite float is a rational and
    every comparison is exact. The two text forms come with their readers; `UUID.parse_str` and
    `DateTime.parse_isoformat` say that reading undoes writing. -/

namespace Values

/-! ### Floats -/

/-- A float: a finite value or one of the three special ones. -/
inductive PyFloat where
  | nan
  | negInf
  | posInf
  | finite (q : ℚ)
  deriving DecidableEq

namespace PyFloat

/-- `x < y` of IEEE 754: false as soon as one side is not a number. -/
def lt : PyFloat → PyFloat → Bool
  | .finite p, .finite q => decide (p < q)
  | .finite _, .posInf => true
  | .negInf, .finite _ => true
  | .negInf, .posInf => true
  | _, _ => false

/-- `x <= y`. -/
def le (x y : PyFloat) : Bool := lt x y || (decide (x ≠ .nan) && decide (x = y))

/-- Between finite floats it is the order of the numbers. -/
@[simp] theorem finite_le_finite (p q : ℚ) : le (.finite p) (.finite q) = decide (p ≤ q) := by
  simp [le, lt, le_iff_lt_or_eq]

/-- `math.isfinite(x)`. -/
def isFinite : PyFloat → Bool
  | .finite _ => true
  | _ => false

theorem exists_of_isFinite {x : PyFloat} (h : x.isFinite = true) : ∃ q, x = .finite q := by
  cases x <;> simp [isFinite] at h ⊢

end PyFloat

/-! ### `max` -/

/-- `max(iterable)` with `gt y best` for "`y` beats the best so far": the first of the greatest
    elements, and no value (an exception) on an empty iterable. -/
def pyMax {α : Type*} (gt : α → α → Bool) : List α → Option α
  | [] => none
  | x :: xs => some (xs.foldl (fun best y => if gt y best then y else best) x)

section pyMax
variable {α κ : Type*}

theorem pyMax_isSome (gt : α → α → Bool) {l : List α} (h : l ≠ []) : (pyMax gt l).isSome := by
  cases l with
  | nil => exact absurd rfl h
  | cons x xs => rfl

theorem foldl_best_mem (gt : α → α → Bool) : ∀ (xs : List α) (x : α),
    xs.foldl (fun best y => if gt y best then y else best) x ∈ x :: xs
  | [], x => by simp
  | y :: ys, x => by
      rw [List.foldl_cons]
      have h := foldl_best_mem gt ys (if gt y x then y else x)
      rcases List.mem_cons.mp h with h | h
      · rw [h]; split <;> simp
      · exact List.mem_cons_of_mem _ (List.mem_cons_of_mem _ h)

theorem pyMax_mem (gt : α → α → Bool) {l : List α} {m : α} (h : pyMax gt l = some m) : m ∈ l := by
  cases l with
  | nil => cases h
  | cons x xs => cases h; exact foldl_best_mem gt xs x

/-- One element more is compared with the best of the others. -/
theorem pyMax_concat (gt : α → α → Bool) {l : List α} {best : α} (h : pyMax gt l = some best)
    (y : α) : pyMax gt (l ++ [y]) = some (if gt y best then y else best) := by
  cases l with
  | nil => cases h
  | cons x xs =>
    cases h
    rw [List.cons_append, pyMax, List.foldl_append]
    rfl

/-- Over elements that `le` orders in a line, `max` is the first one that bounds all of them. -/
theorem pyMax_eq_find? {gt le : α → α → Bool} {l : List α}
    (hgt : ∀ x ∈ l, ∀ y ∈ l, gt y x = !le y x)
    (htotal : ∀ x ∈ l, ∀ y ∈ l, le x y = true ∨ le y x = true)
    (htrans : ∀ x ∈ l, ∀ y ∈ l, ∀ z ∈ l, le x y = true → le y z = true → le x z = true) :
    pyMax gt l = l.find? (fun x => l.all (fun y => le y x)) := by
  induction l using List.reverseRecOn with
  | nil => rfl
  | append_singleton l y ih =>
    have hmem : ∀ x ∈ l, x ∈ l ++ [y] := fun x hx => List.mem_append_left _ hx
    have hy : y ∈ l ++ [y] := List.mem_append_right _ (List.mem_singleton_self y)
    have hrefl : le y y = true := (htotal y hy y hy).elim id id
    have ih := ih (fun x hx z hz => hgt x (hmem x hx) z (hmem z hz))
      (fun x hx z hz => htotal x (hmem x hx) z (hmem z hz))
      (fun x hx z hz w hw => htrans x (hmem x hx) z (hmem z hz) w (hmem w hw))
    cases hbest : pyMax gt l with
    | none =>
      obtain rfl : l = [] := by
        by_contra hne
        simpa [hbest] using pyMax_isSome gt hne
      simp [pyMax, hrefl]
    | some best =>
      have hin := pyMax_mem gt hbest
      have hbound : ∀ z ∈ l, le z best = true := by
        rw [hbest] at ih
        simpa using List.find?_some ih.symm
      rw [pyMax_concat gt hbest, hgt best (hmem best hin) y hy, List.find?_append]
      cases hle : le y best with
      | true =>
        -- the new element bounds nothing that was bounded before
        have hsame : l.find? (fun x => (l ++ [y]).all (fun z => le z x)) = some best := by
          rw [← hbest, ih]
          refine List.find?_congr fun x hx => ?_
          simp only [List.all_append, List.all_cons, List.all_nil, Bool.and_true]
          cases hall : l.all (fun z => le z x) with
          | false => rfl
          | true =>
            exact htrans y hy best (hmem best hin) x (hmem x hx) hle
              (List.all_eq_true.mp hall best hin)
        rw [hsame]
        rfl
      | false =>
        have hbetter : le best y = true := (htotal y hy best (hmem best hin)).resolve_left (by
          simp [hle])
        have hnone : l.find? (fun x => (l ++ [y]).all (fun z => le z x)) = none := by
          refine List.find?_eq_none.mpr fun x hx hall => ?_
          have hyx := List.all_eq_true.mp hall y hy
          rw [htrans y hy x (hmem x hx) best (hmem best hin) hyx (hbound x hx)] at hle
          cases hle
        have hlast : (l ++ [y]).all (fun z => le z y) = true := by
          refine List.all_eq_true.mpr fun z hz => ?_
          rcases List.mem_append.mp hz with hz' | hz'
          · exact htrans z hz best (hmem best hin) y hy (hbound z hz') hbetter
          · rw [List.mem_singleton.mp hz']; exact hrefl
        rw [hnone, Option.none_or, List.find?_cons, hlast]
        rfl

/-- `max` with a key is the first element whose key bounds all the others. -/
theorem pyMax_key [LinearOrder κ] (key : α → κ) (l : List α) :
    pyMax (fun y best => decide (key best < key y)) l =
      l.find? (fun x => l.all (fun y => decide (key y ≤ key x))) := by
  refine pyMax_eq_find? (fun x _ y _ => ?_) (fun x _ y _ => ?_) (fun x _ y _ z _ hxy hyz => ?_)
  · rw [← decide_not, decide_eq_decide]; exact not_le.symm
  · simpa using le_total (key x) (key y)
  · simp only [decide_eq_true_eq] at hxy hyz ⊢; exact hxy.trans hyz
/-- The key of that element bounds all the others. -/
theorem pyMax_key_le [LinearOrder κ] (key : α → κ) {l : List α} {m : α}
    (h : pyMax (fun y best => decide (key best < key y)) l = some m) :
    ∀ y ∈ l, key y ≤ key m := by
  rw [pyMax_key] at h
  simpa using List.find?_some h

/-- Finite floats are ordered in a line. -/
theorem pyMax_finite {l : List PyFloat} (h : ∀ x ∈ l, x.isFinite = true) :
    pyMax (fun y best => best.lt y) l = l.find? (fun x => l.all (fun y => y.le x)) := by
  refine pyMax_eq_find? (fun x hx y hy => ?_) (fun x hx y hy => ?_)
    (fun x hx y hy z hz hxy hyz => ?_)
  · obtain ⟨p, rfl⟩ := PyFloat.exists_of_isFinite (h x hx)
    obtain ⟨q, rfl⟩ := PyFloat.exists_of_isFinite (h y hy)
    rw [PyFloat.finite_le_finite, PyFloat.lt, ← decide_not, decide_eq_decide]
    exact not_le.symm
  · obtain ⟨p, rfl⟩ := PyFloat.exists_of_isFinite (h x hx)
    obtain ⟨q, rfl⟩ := PyFloat.exists_of_isFinite (h y hy)
    simpa using le_total p q
  · obtain ⟨p, rfl⟩ := PyFloat.exists_of_isFinite (h x hx)
    obtain ⟨q, rfl⟩ := PyFloat.exists_of_isFinite (h y hy)
    obtain ⟨r, rfl⟩ := PyFloat.exists_of_isFinite (h z hz)
    simp only [PyFloat.finite_le_finite, decide_eq_true_eq] at hxy hyz ⊢
    exact hxy.trans hyz

end pyMax

/-! ### Numerals of the digits and fields below -/

instance neZeroDigit : NeZero 16 := ⟨by decide⟩

instance neZeroYear : NeZero 10000 := ⟨by decide⟩

instance neZeroMonth : NeZero 13 := ⟨by decide⟩

instance neZeroDay : NeZero 32 := ⟨by decide⟩

instance neZeroHour : NeZero 24 := ⟨by decide⟩

instance neZeroSixtieth : NeZero 60 := ⟨by decide⟩

instance neZeroMicrosecond : NeZero 1000000 := ⟨by decide⟩

/-! ### Digits -/

/-- A hexadecimal digit in lower case. -/
def hexDigit (d : Fin 16) : Char := Nat.digitChar d.val

/-- The value of a lower- or upper-case hexadecimal digit. -/
def hexVal? (c : Char) : Option ℕ :=
  if '0' ≤ c ∧ c ≤ '9' then some (c.toNat - '0'.toNat)
  else if 'a' ≤ c ∧ c ≤ 'f' then some (c.toNat - 'a'.toNat + 10)
  else if 'A' ≤ c ∧ c ≤ 'F' then some (c.toNat - 'A'.toNat + 10)
  else none

theorem hexVal?_hexDigit : ∀ d : Fin 16, hexVal? (hexDigit d) = some d.val := by decide

/-- `n` in exactly `w` decimal digits (the low ones when there are more). -/
def pad : ℕ → ℕ → List Char
  | 0, _ => []
  | w + 1, n => Nat.digitChar (n / 10 ^ w % 10) :: pad w (n % 10 ^ w)

/-- Read exactly `w` decimal digits onto the value `acc` read so far. -/
def takeDigits : ℕ → ℕ → List Char → Option (ℕ × List Char)
  | 0, acc, cs => some (acc, cs)
  | _ + 1, _, [] => none
  | w + 1, acc, c :: cs =>
    if '0' ≤ c ∧ c ≤ '9' then takeDigits w (acc * 10 + (c.toNat - '0'.toNat)) cs else none

theorem digitChar_decimal : ∀ d, d < 10 → ('0' ≤ Nat.digitChar d ∧ Nat.digitChar d ≤ '9') ∧
    (Nat.digitChar d).toNat - '0'.toNat = d := by decide

/-- Reading `w` digits gives back the number that was padded to `w` digits. -/
theorem takeDigits_pad : ∀ (w acc n : ℕ) (rest : List Char), n < 10 ^ w →
    takeDigits w acc (pad w n ++ rest) = some (acc * 10 ^ w + n, rest)
  | 0, acc, n, rest, h => by
      have h0 : n = 0 := by simpa using h
      simp [takeDigits, pad, h0]
  | w + 1, acc, n, rest, h => by
      have hd : n / 10 ^ w < 10 := Nat.div_lt_of_lt_mul (by rwa [pow_succ] at h)
      obtain ⟨hr, hv⟩ := digitChar_decimal (n / 10 ^ w % 10) (Nat.mod_lt _ (by decide))
      rw [pad, List.cons_append, takeDigits, if_pos hr, hv, Nat.mod_eq_of_lt hd,
        takeDigits_pad w _ (n % 10 ^ w) rest (Nat.mod_lt _ (by positivity))]
      have hsplit := Nat.div_add_mod n (10 ^ w)
      congr 2
      calc (acc * 10 + n / 10 ^ w) * 10 ^ w + n % 10 ^ w
          = acc * 10 ^ (w + 1) + (10 ^ w * (n / 10 ^ w) + n % 10 ^ w) := by ring
        _ = acc * 10 ^ (w + 1) + n := by rw [hsplit]

/-! ### Identifiers -/

/-- A 128-bit identifier, as its 32 hexadecimal digits. -/
structure UUID where
  digits : List (Fin 16)
  length_eq : digits.length = 32
  deriving DecidableEq

namespace UUID

/-- The digits as characters, grouped 8-4-4-4-12. -/
def hyphenate (cs : List Char) : List Char :=
  cs.take 8 ++ '-' :: ((cs.drop 8).take 4 ++ '-' :: ((cs.drop 12).take 4 ++ '-' ::
    ((cs.drop 16).take 4 ++ '-' :: cs.drop 20)))

/-- `str(uuid)`: lower-case digits, hyphenated. -/
def str (u : UUID) : String := String.ofList (hyphenate (u.digits.map hexDigit))

/-- A hexadecimal digit as an element of `Fin 16`. -/
def nibble? (c : Char) : Option (Fin 16) :=
  (hexVal? c).bind (fun v => if h : v < 16 then some ⟨v, h⟩ else none)

/-- Read 32 hexadecimal digits. -/
def parseSimple (cs : List Char) : Option UUID :=
  (cs.mapM nibble?).bind (fun ds => if h : ds.length = 32 then some ⟨ds, h⟩ else none)

/-- Read 32 hexadecimal digits with the hyphens of `str`. -/
def parseHyphenated (cs : List Char) : Option UUID :=
  let digits := cs.filter (· ≠ '-')
  if hyphenate digits = cs then parseSimple digits else none

/-- Read the four forms of an identifier, told apart by their lengths: plain digits, hyphenated,
    hyphenated in braces, and hyphenated behind `urn:uuid:`. -/
def parse (s : String) : Option UUID :=
  let cs := s.toList
  match cs.length with
  | 32 => parseSimple cs
  | 36 => parseHyphenated cs
  | 38 => if cs.head? = some '\x7b' ∧ cs.getLast? = some '\x7d'
      then parseHyphenated cs.tail.dropLast else none
  | 45 => if "urn:uuid:".toList <+: cs then parseHyphenated (cs.drop 9) else none
  | _ => none

theorem nibble?_hexDigit : ∀ d : Fin 16, nibble? (hexDigit d) = some d := by decide

theorem hexDigit_ne_hyphen : ∀ d : Fin 16, hexDigit d ≠ '-' := by decide

theorem filter_hyphenate {cs : List Char} (h : ∀ c ∈ cs, c ≠ '-') :
    (hyphenate cs).filter (· ≠ '-') = cs := by
  have keep : ∀ l : List Char, (∀ c ∈ l, c ∈ cs) → l.filter (· ≠ '-') = l := fun l hl =>
    List.filter_eq_self.mpr (fun c hc => by simpa using h c (hl c hc))
  simp only [hyphenate, List.filter_append, List.filter_cons]
  rw [keep _ (fun c hc => List.mem_of_mem_take hc),
    keep _ (fun c hc => List.mem_of_mem_drop (List.mem_of_mem_take hc)),
    keep _ (fun c hc => List.mem_of_mem_drop (List.mem_of_mem_take hc)),
    keep _ (fun c hc => List.mem_of_mem_drop (List.mem_of_mem_take hc)),
    keep _ (fun c hc => List.mem_of_mem_drop hc)]
  simp only [ne_eq, not_true_eq_false, decide_false, Bool.false_eq_true, if_false]
  rw [show cs.drop 12 = (cs.drop 8).drop 4 by simp, show cs.drop 16 = ((cs.drop 8).drop 4).drop 4 by
    simp, show cs.drop 20 = (((cs.drop 8).drop 4).drop 4).drop 4 by simp]
  simp only [List.take_append_drop]

theorem mapM_nibble? : ∀ ds : List (Fin 16),
    (ds.map hexDigit).mapM nibble? = some ds
  | [] => rfl
  | d :: ds => by
      rw [List.map_cons, List.mapM_cons, nibble?_hexDigit, mapM_nibble? ds]; rfl

theorem length_hyphenate {cs : List Char} (h : cs.length = 32) : (hyphenate cs).length = 36 := by
  simp only [hyphenate, List.length_append, List.length_cons, List.length_take, List.length_drop, h]
  rfl

/-- Reading the text of an identifier gives the identifier back. -/
@[simp] theorem parse_str (u : UUID) : parse u.str = some u := by
  have hne : ∀ c ∈ u.digits.map hexDigit, c ≠ '-' := by
    intro c hc
    obtain ⟨d, _, rfl⟩ := List.mem_map.mp hc
    exact hexDigit_ne_hyphen d
  have hlength : (hyphenate (u.digits.map hexDigit)).length = 36 :=
    length_hyphenate ((List.length_map ..).trans u.length_eq)
  simp only [parse, str, String.toList_ofList, hlength, parseHyphenated, filter_hyphenate hne,
    if_true]
  rw [parseSimple, mapM_nibble?, Option.bind_some, dif_pos u.length_eq]

theorem str_injective : Function.Injective str := fun u v h =>
  Option.some.inj (by rw [← parse_str u, h, parse_str v])

end UUID

/-! ### Date-times -/

/-- An offset from UTC: its side, hours and minutes. Python also has offsets with seconds; neither
    the reader of the contract nor a UTC clock makes one, and they are left out. -/
structure Offset where
  west : Bool
  hours : Fin 24
  minutes : Fin 60
  deriving DecidableEq

/-- Years that have a 29 February. -/
def isLeap (y : ℕ) : Bool := y % 4 = 0 && (y % 100 ≠ 0 || y % 400 = 0)

def daysInMonth (y m : ℕ) : ℕ :=
  [0, 31, 28, 31, 30, 31, 30, 31, 31, 30, 31, 30, 31].getD m 0 + (if m = 2 ∧ isLeap y then 1 else 0)

/-- A day of the proleptic Gregorian calendar. -/
def isDate (y m d : ℕ) : Bool := 1 ≤ y && 1 ≤ m && 1 ≤ d && d ≤ daysInMonth y m

/-- The day of the samples. -/
theorem isDate_sample : isDate 2026 7 17 = true := by decide

/-- A calendar date-time; without an offset it is naive. -/
structure DateTime where
  year : Fin 10000
  month : Fin 13
  day : Fin 32
  hour : Fin 24
  minute : Fin 60
  second : Fin 60
  microsecond : Fin 1000000
  utcoffset : Option Offset
  valid : isDate year month day = true
  deriving DecidableEq

/-- Microseconds on the UTC time line. -/
abbrev Instant := ℤ

namespace DateTime

/-- The date-time carries an offset (`tzinfo` and `utcoffset()` are not `None`). -/
def aware (t : DateTime) : Bool := t.utcoffset.isSome

/-- Days of the year before the month. -/
def daysBeforeMonth (y m : ℕ) : ℕ :=
  [0, 0, 31, 59, 90, 120, 151, 181, 212, 243, 273, 304, 334].getD m 0 +
    (if 2 < m ∧ isLeap y then 1 else 0)

/-- Days of the proleptic Gregorian calendar before the year. -/
def daysBeforeYear (y : ℕ) : ℕ :=
  (y - 1) * 365 + (y - 1) / 4 - (y - 1) / 100 + (y - 1) / 400

def toOrdinal (t : DateTime) : ℕ := daysBeforeYear t.year + daysBeforeMonth t.year t.month + t.day

/-- Minutes east of UTC; a naive date-time counts as UTC. -/
def offsetMinutes (t : DateTime) : ℤ :=
  match t.utcoffset with
  | none => 0
  | some o => (if o.west then -1 else 1) * (o.hours.val * 60 + o.minutes.val : ℕ)

/-- The moment on the UTC time line; aware date-times compare by it. -/
def instant (t : DateTime) : Instant :=
  (((t.toOrdinal * 24 + t.hour) * 60 + t.minute - t.offsetMinutes) * 60 + t.second) * 1000000 +
    t.microsecond

/-- The offset as text: nothing, `Z`, or the signed hours and minutes. -/
def formatOffset : Option Offset → List Char
  | none => []
  | some o =>
    if o = ⟨false, 0, 0⟩ then ['Z']
    else (if o.west then '-' else '+') :: (pad 2 o.hours ++ ':' :: pad 2 o.minutes)

/-- ISO 8601 text; the fraction is written only when it is not zero. -/
def isoformat (t : DateTime) : String := String.ofList <|
  pad 4 t.year ++ '-' :: (pad 2 t.month ++ '-' :: (pad 2 t.day ++ 'T' :: (pad 2 t.hour ++ ':' ::
    (pad 2 t.minute ++ ':' :: (pad 2 t.second ++ ((if t.microsecond = 0 then []
      else '.' :: pad 6 t.microsecond) ++ formatOffset t.utcoffset))))))

/-- The number as an element of `Fin k`, when it is one. -/
def bounded (k n : ℕ) : Option (Fin k) := if h : n < k then some ⟨n, h⟩ else none

@[simp] theorem bounded_val {k : ℕ} (n : Fin k) : bounded k n.val = some n := by
  simp [bounded, n.isLt]

/-- Exactly `w` digits that make a number below `k`. -/
def field (w k : ℕ) (cs : List Char) : Option (Fin k × List Char) :=
  (takeDigits w 0 cs).bind (fun p => (bounded k p.1).map (fun n => (n, p.2)))

theorem field_pad {w k : ℕ} (n : Fin k) (rest : List Char) (h : k ≤ 10 ^ w) :
    field w k (pad w n ++ rest) = some (n, rest) := by
  rw [field, takeDigits_pad w 0 n rest (lt_of_lt_of_le n.isLt h)]
  simp

/-- The character, then the rest. -/
def expect (c : Char) : List Char → Option (List Char)
  | [] => none
  | d :: cs => if d = c then some cs else none

@[simp] theorem expect_cons (c : Char) (cs : List Char) : expect c (c :: cs) = some cs := by
  simp [expect]

/-- The optional fraction of a second. -/
def parseFraction : List Char → Option (Fin 1000000 × List Char)
  | '.' :: cs => field 6 1000000 cs
  | cs => some (0, cs)

/-- The offset that ends the text. -/
def parseOffset : List Char → Option (Option Offset)
  | [] => some none
  | ['Z'] => some (some ⟨false, 0, 0⟩)
  | sign :: cs =>
    if sign = '+' ∨ sign = '-' then do
      let (hours, cs) ← field 2 24 cs
      let cs ← expect ':' cs
      let (minutes, cs) ← field 2 60 cs
      if cs = [] then some (some ⟨sign = '-', hours, minutes⟩) else none
    else none

/-- Read the text that `isoformat` writes. -/
def parse (s : String) : Option DateTime := do
  let (year, cs) ← field 4 10000 s.toList
  let cs ← expect '-' cs
  let (month, cs) ← field 2 13 cs
  let cs ← expect '-' cs
  let (day, cs) ← field 2 32 cs
  let cs ← expect 'T' cs
  let (hour, cs) ← field 2 24 cs
  let cs ← expect ':' cs
  let (minute, cs) ← field 2 60 cs
  let cs ← expect ':' cs
  let (second, cs) ← field 2 60 cs
  let (microsecond, cs) ← parseFraction cs
  let utcoffset ← parseOffset cs
  if h : isDate year month day = true then
    some ⟨year, month, day, hour, minute, second, microsecond, utcoffset, h⟩
  else none

theorem parseOffset_format (o : Option Offset) : parseOffset (formatOffset o) = some o := by
  cases o with
  | none => rfl
  | some o =>
    obtain ⟨west, hours, minutes⟩ := o
    have hm := field_pad (w := 2) minutes [] (by decide)
    rw [List.append_nil] at hm
    simp only [formatOffset]
    by_cases h : (⟨west, hours, minutes⟩ : Offset) = ⟨false, 0, 0⟩
    · rw [if_pos h, h]; rfl
    · rw [if_neg h]
      cases west <;>
        simp [parseOffset, field_pad (w := 2) hours (':' :: pad 2 minutes.val) (by decide), hm]

theorem formatOffset_head (o : Option Offset) (cs : List Char) : formatOffset o ≠ '.' :: cs := by
  cases o with
  | none => simp [formatOffset]
  | some o =>
    simp only [formatOffset]
    by_cases h : o = ⟨false, 0, 0⟩
    · simp [h]
    · cases hw : o.west <;> simp [h]

theorem parseFraction_format (us : Fin 1000000) (o : Option Offset) :
    parseFraction ((if us = 0 then [] else '.' :: pad 6 us) ++ formatOffset o) =
      some (us, formatOffset o) := by
  split
  · next h =>
    rw [List.nil_append, h]
    unfold parseFraction
    split
    · next cs hcs => exact absurd hcs (formatOffset_head o cs)
    · rfl
  · exact field_pad (w := 6) us _ (by decide)

/-- Reading the ISO text of a date-time gives the date-time back. -/
@[simp] theorem parse_isoformat (t : DateTime) : parse t.isoformat = some t := by
  simp only [parse, isoformat, String.toList_ofList, Option.bind_eq_bind]
  rw [field_pad t.year _ (by decide)]
  simp only [Option.bind_some, expect_cons]
  rw [field_pad t.month _ (by decide)]
  simp only [Option.bind_some, expect_cons]
  rw [field_pad t.day _ (by decide)]
  simp only [Option.bind_some, expect_cons]
  rw [field_pad t.hour _ (by decide)]
  simp only [Option.bind_some, expect_cons]
  rw [field_pad t.minute _ (by decide)]
  simp only [Option.bind_some, expect_cons]
  rw [field_pad t.second _ (by decide)]
  simp only [Option.bind_some, parseFraction_format, parseOffset_format]
  rw [dif_pos t.valid]

end DateTime

end Values
