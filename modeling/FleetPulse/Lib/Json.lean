import FleetPulse.Lib.Values

/-! JSON values and their text.

    `Json S N` has strings in `S` and numbers in `N`. The writer is Python's `json.dumps` on a
    mapping from strings to strings (ASCII output, every other character escaped); the reader is
    Python's `json.loads` on any text. The reader is one left fold over the characters, carrying the
    stack of open containers and what is expected next:

        value ──▶ string / number / literal ──▶ done ──▶ ',' or closing bracket
          │ '['  push an array                    │ ':' after a key
          │ '{'  push an object                   ▼
          ▼                                     (end of text with an empty stack: the value)

    A string that is read is a list of code points, since an escape can name a lone surrogate; a
    number is kept as the characters it was written with. Opening more containers than the
    interpreter's recursion allows is an error of its own. `loads_dumps` says that reading what was
    written gives the mapping back. -/

/-- A JSON value with strings in `S` and numbers in `N`. -/
inductive Json (S N : Type) where
  | null
  | bool (b : Bool)
  | num (n : N)
  | str (s : S)
  | arr (xs : List (Json S N))
  | obj (kvs : List (S × Json S N))

namespace Json

/-! ### Writing -/

/-- Four lower-case hexadecimal digits. -/
def hex4 (n : ℕ) : List Char :=
  [n / 4096, n / 256, n / 16, n].map (fun d => Values.hexDigit (Fin.ofNat 16 d))

/-- One character of a string in ASCII: short escapes, `\u` escapes (a surrogate pair beyond the
    basic plane), printable characters as they are. -/
def escapeChar (c : Char) : List Char :=
  if c = '"' then ['\\', '"']
  else if c = '\\' then ['\\', '\\']
  else if c = '\n' then ['\\', 'n']
  else if c = '\r' then ['\\', 'r']
  else if c = '\t' then ['\\', 't']
  else if c = Char.ofNat 12 then ['\\', 'f']
  else if c = Char.ofNat 8 then ['\\', 'b']
  else if 32 ≤ c.toNat ∧ c.toNat ≤ 126 then [c]
  else if c.toNat < 0x10000 then '\\' :: 'u' :: hex4 c.toNat
  else '\\' :: 'u' :: hex4 (0xd800 + (c.toNat - 0x10000) / 0x400) ++
    '\\' :: 'u' :: hex4 (0xdc00 + (c.toNat - 0x10000) % 0x400)

/-- A string in quotes. -/
def quote (s : String) : List Char := '"' :: s.toList.flatMap escapeChar ++ ['"']

/-- `json.dumps(mapping, separators=(item, key))` on a mapping from strings to strings. -/
def dumpsWith (item key : List Char) (kvs : List (String × String)) : String :=
  String.ofList ('{' ::
    (List.intercalate item (kvs.map (fun kv => quote kv.1 ++ (key ++ quote kv.2)))) ++ ['}'])

/-- The compact text, with the separators `","` and `":"`. -/
def dumps (kvs : List (String × String)) : String := dumpsWith [','] [':'] kvs

/-! ### Reading -/

/-- What `json.loads` can raise. -/
inductive LoadError where
  | decode
  | value
  | recursion
  deriving DecidableEq

/-- A string as it was read: its code points. -/
abbrev CodePoints := List ℕ

/-- The code points of a text. -/
def codePoints (s : String) : CodePoints := s.toList.map Char.toNat

/-- The values that are read. -/
abbrev Text := Json CodePoints (List Char)

/-- Inside a string: plain text, after a backslash, in the digits of a `\u` escape (how many are
    missing, their value so far, the high surrogate before them), after a high surrogate, or after
    a high surrogate and a backslash. -/
inductive StrMode where
  | plain
  | esc
  | hex (missing value : ℕ) (high : Option ℕ)
  | high (h : ℕ)
  | highEsc (h : ℕ)

/-- Inside a number: after the sign, after a leading zero, in the integer digits, after the point,
    in the fraction, after the `e`, after the sign of the exponent, in the exponent. -/
inductive NumMode where
  | minus
  | zero
  | int
  | point
  | fraction
  | e
  | eSign
  | exponent

/-- An open container: the elements so far, or the members so far and the key being filled. -/
inductive Frame where
  | arr (xs : List Text)
  | obj (kvs : List (CodePoints × Text)) (key : CodePoints)

/-- What the reader expects next. `orClose` allows the bracket that closes an empty container. -/
inductive Mode where
  | value (orClose : Bool)
  | key (orClose : Bool)
  | colon
  | string (isKey : Bool) (acc : CodePoints) (m : StrMode)
  | number (lexeme : List Char) (m : NumMode)
  | literal (rest : List Char) (v : Text)
  | done (v : Text)

/-- The reader: the open containers, innermost first, and what is expected. -/
abbrev Reader := List Frame × Mode

def isSpace (c : Char) : Bool := c = ' ' || c = '\t' || c = '\n' || c = '\r'

def isDigit (c : Char) : Bool := '0' ≤ c && c ≤ '9'

/-- A member of a mapping that is read later replaces an earlier one of the same key. -/
def setMember (kvs : List (CodePoints × Text)) (k : CodePoints) (v : Text) :
    List (CodePoints × Text) :=
  if k ∈ kvs.map Prod.fst then kvs.map (fun kv => if kv.1 = k then (k, v) else kv)
  else kvs ++ [(k, v)]

/-- The interpreter converts integers of at most this many digits. -/
def intMaxStrDigits : ℕ := 4300

/-- The lexeme as a number; an integer with too many digits is refused. -/
def number (lexeme : List Char) : Except LoadError Text :=
  if lexeme.all (fun c => isDigit c || c = '-') ∧
      intMaxStrDigits < (lexeme.filter isDigit).length then .error .value
  else .ok (.num lexeme)

/-- After a complete value. -/
def afterValue (stack : List Frame) (v : Text) (c : Char) : Except LoadError Reader :=
  if isSpace c then .ok (stack, .done v)
  else match stack with
    | [] => .error .decode
    | .arr xs :: rest =>
      if c = ',' then .ok (.arr (xs ++ [v]) :: rest, .value false)
      else if c = ']' then .ok (rest, .done (.arr (xs ++ [v])))
      else .error .decode
    | .obj kvs k :: rest =>
      if c = ',' then .ok (.obj (setMember kvs k v) [] :: rest, .key false)
      else if c = '}' then .ok (rest, .done (.obj (setMember kvs k v)))
      else .error .decode

/-- A string is complete: the key of the innermost object, or a value. -/
def afterString (stack : List Frame) (isKey : Bool) (s : CodePoints) : Except LoadError Reader :=
  if isKey then
    match stack with
    | .obj kvs _ :: rest => .ok (.obj kvs s :: rest, .colon)
    | _ => .error .decode
  else .ok (stack, .done (.str s))

/-- A number is complete and `c` comes after it. A sign, point or exponent without its digits is
    not part of the number, and then `c` cannot follow. -/
def afterNumber (stack : List Frame) (lexeme : List Char) (m : NumMode) (c : Char) :
    Except LoadError Reader :=
  match m with
  | .zero | .int | .fraction | .exponent => (number lexeme).bind (fun v => afterValue stack v c)
  | .minus => .error .decode
  | .point | .e | .eSign => (number (lexeme.takeWhile (fun c => isDigit c || c = '-'))).bind
      (fun _ => .error .decode)

/-- One more character of a number. -/
def feedNumber (stack : List Frame) (lexeme : List Char) (m : NumMode) (c : Char) :
    Except LoadError Reader :=
  match m with
  | .minus =>
    if c = '0' then .ok (stack, .number (lexeme ++ [c]) .zero)
    else if isDigit c then .ok (stack, .number (lexeme ++ [c]) .int)
    else if c = 'I' then .ok (stack, .literal "nfinity".toList (.num "-Infinity".toList))
    else .error .decode
  | .zero =>
    if c = '.' then .ok (stack, .number (lexeme ++ [c]) .point)
    else if c = 'e' ∨ c = 'E' then .ok (stack, .number (lexeme ++ [c]) .e)
    else afterNumber stack lexeme m c
  | .int =>
    if isDigit c then .ok (stack, .number (lexeme ++ [c]) .int)
    else if c = '.' then .ok (stack, .number (lexeme ++ [c]) .point)
    else if c = 'e' ∨ c = 'E' then .ok (stack, .number (lexeme ++ [c]) .e)
    else afterNumber stack lexeme m c
  | .point =>
    if isDigit c then .ok (stack, .number (lexeme ++ [c]) .fraction)
    else afterNumber stack lexeme m c
  | .fraction =>
    if isDigit c then .ok (stack, .number (lexeme ++ [c]) .fraction)
    else if c = 'e' ∨ c = 'E' then .ok (stack, .number (lexeme ++ [c]) .e)
    else afterNumber stack lexeme m c
  | .e =>
    if isDigit c then .ok (stack, .number (lexeme ++ [c]) .exponent)
    else if c = '+' ∨ c = '-' then .ok (stack, .number (lexeme ++ [c]) .eSign)
    else afterNumber stack lexeme m c
  | .eSign | .exponent =>
    if isDigit c then .ok (stack, .number (lexeme ++ [c]) .exponent)
    else afterNumber stack lexeme m c

/-- The short escapes. -/
def shortEscape (c : Char) : Option ℕ :=
  if c = '"' ∨ c = '\\' ∨ c = '/' then some c.toNat
  else if c = 'n' then some 10
  else if c = 'r' then some 13
  else if c = 't' then some 9
  else if c = 'f' then some 12
  else if c = 'b' then some 8
  else none

def isHighSurrogate (n : ℕ) : Bool := 0xd800 ≤ n && n ≤ 0xdbff

def isLowSurrogate (n : ℕ) : Bool := 0xdc00 ≤ n && n ≤ 0xdfff

/-- A `\u` escape is complete. A low surrogate joins the high one before it; a high surrogate waits
    for the next escape. -/
def afterEscape (acc : CodePoints) (value : ℕ) : Option ℕ → CodePoints × StrMode
  | some h =>
    if isLowSurrogate value then
      (acc ++ [0x10000 + (h - 0xd800) * 0x400 + (value - 0xdc00)], .plain)
    else if isHighSurrogate value then (acc ++ [h], .high value)
    else (acc ++ [h, value], .plain)
  | none => if isHighSurrogate value then (acc, .high value) else (acc ++ [value], .plain)

/-- One more character of a string. Control characters must be escaped. -/
def feedString (stack : List Frame) (isKey : Bool) (acc : CodePoints) (m : StrMode) (c : Char) :
    Except LoadError Reader :=
  match m with
  | .plain =>
    if c = '"' then afterString stack isKey acc
    else if c = '\\' then .ok (stack, .string isKey acc .esc)
    else if c.toNat < 32 then .error .decode
    else .ok (stack, .string isKey (acc ++ [c.toNat]) .plain)
  | .esc =>
    if c = 'u' then .ok (stack, .string isKey acc (.hex 4 0 none))
    else match shortEscape c with
      | some n => .ok (stack, .string isKey (acc ++ [n]) .plain)
      | none => .error .decode
  | .hex missing value high =>
    match Values.hexVal? c with
    | none => .error .decode
    | some d =>
      if missing ≤ 1 then
        .ok (stack, .string isKey (afterEscape acc (value * 16 + d) high).1
          (afterEscape acc (value * 16 + d) high).2)
      else .ok (stack, .string isKey acc (.hex (missing - 1) (value * 16 + d) high))
  | .high h =>
    if c = '"' then afterString stack isKey (acc ++ [h])
    else if c = '\\' then .ok (stack, .string isKey acc (.highEsc h))
    else if c.toNat < 32 then .error .decode
    else .ok (stack, .string isKey (acc ++ [h, c.toNat]) .plain)
  | .highEsc h =>
    if c = 'u' then .ok (stack, .string isKey acc (.hex 4 0 (some h)))
    else match shortEscape c with
      | some n => .ok (stack, .string isKey (acc ++ [h, n]) .plain)
      | none => .error .decode

/-- Open a container, if the interpreter's recursion allows one more. -/
def openContainer (limit : ℕ) (stack : List Frame) (f : Frame) (m : Mode) :
    Except LoadError Reader :=
  if limit < stack.length then .error .recursion else .ok (f :: stack, m)

/-- The first character of a value. -/
def feedValue (limit : ℕ) (stack : List Frame) (orClose : Bool) (c : Char) :
    Except LoadError Reader :=
  if isSpace c then .ok (stack, .value orClose)
  else if c = '"' then .ok (stack, .string false [] .plain)
  else if c = '[' then openContainer limit stack (.arr []) (.value true)
  else if c = '{' then openContainer limit stack (.obj [] []) (.key true)
  else if c = '-' then .ok (stack, .number [c] .minus)
  else if c = '0' then .ok (stack, .number [c] .zero)
  else if isDigit c then .ok (stack, .number [c] .int)
  else if c = 't' then .ok (stack, .literal "rue".toList (.bool true))
  else if c = 'f' then .ok (stack, .literal "alse".toList (.bool false))
  else if c = 'n' then .ok (stack, .literal "ull".toList .null)
  else if c = 'N' then .ok (stack, .literal "aN".toList (.num "NaN".toList))
  else if c = 'I' then .ok (stack, .literal "nfinity".toList (.num "Infinity".toList))
  else match orClose, c, stack with
    | true, ']', .arr xs :: rest => .ok (rest, .done (.arr xs))
    | _, _, _ => .error .decode

/-- A key of an object, or the bracket that closes it while it is empty. -/
def feedKey (stack : List Frame) (orClose : Bool) (c : Char) : Except LoadError Reader :=
  if isSpace c then .ok (stack, .key orClose)
  else if c = '"' then .ok (stack, .string true [] .plain)
  else match orClose, c, stack with
    | true, '}', .obj kvs _ :: rest => .ok (rest, .done (.obj kvs))
    | _, _, _ => .error .decode

/-- One more character. -/
def feed (limit : ℕ) (r : Reader) (c : Char) : Except LoadError Reader :=
  match r.2 with
  | .value orClose => feedValue limit r.1 orClose c
  | .key orClose => feedKey r.1 orClose c
  | .colon =>
    if isSpace c then .ok (r.1, .colon)
    else if c = ':' then .ok (r.1, .value false)
    else .error .decode
  | .string isKey acc m => feedString r.1 isKey acc m c
  | .number lexeme m => feedNumber r.1 lexeme m c
  | .literal [] v => afterValue r.1 v c
  | .literal (x :: rest) v => if c = x then .ok (r.1, .literal rest v) else .error .decode
  | .done v => afterValue r.1 v c

/-- The fold over the characters. -/
def run (limit : ℕ) (r : Reader) (cs : List Char) : Except LoadError Reader :=
  cs.foldlM (feed limit) r

/-- The end of the text: a complete value and no open container. -/
def finish (r : Reader) : Except LoadError Text :=
  match r with
  | ([], .done v) => .ok v
  | ([], .literal [] v) => .ok v
  | (stack, .number lexeme m) => (afterNumber stack lexeme m ' ').bind (fun r' =>
      match r' with
      | ([], .done v) => .ok v
      | _ => .error .decode)
  | _ => .error .decode

/-- `json.loads(text)`, with the number of containers that may be open inside another. -/
def loads (limit : ℕ) (text : String) : Except LoadError Text :=
  match text.toList with
  | [] => .error .decode
  | c :: cs =>
    -- a text must not start with the byte order mark
    if c.toNat = 0xfeff then .error .decode
    else (run limit ([], .value false) (c :: cs)).bind finish

/-! ### Reading what was written -/

section RoundTrip
variable (limit : ℕ) (stack : List Frame)

@[simp] theorem run_nil (r : Reader) : run limit r [] = .ok r := rfl

@[simp] theorem run_cons (r : Reader) (c : Char) (cs : List Char) :
    run limit r (c :: cs) = (feed limit r c).bind (fun r' => run limit r' cs) := rfl

theorem run_append (r : Reader) (cs ds : List Char) :
    run limit r (cs ++ ds) = (run limit r cs).bind (fun r' => run limit r' ds) := by
  rw [run, List.foldlM_append]; rfl

theorem run_append_of_ok {r r' : Reader} {cs : List Char} (h : run limit r cs = .ok r')
    (ds : List Char) : run limit r (cs ++ ds) = run limit r' ds := by
  rw [run_append, h]; rfl

/-- The four digits of an escape are read back as the number that was written. -/
theorem run_hex4 (isKey : Bool) (acc : CodePoints) (high : Option ℕ) {n : ℕ} (h : n < 0x10000) :
    run limit (stack, .string isKey acc (.hex 4 0 high)) (hex4 n) =
      .ok (stack, .string isKey (afterEscape acc n high).1 (afterEscape acc n high).2) := by
  have hn : (((n / 4096 % 16) * 16 + n / 256 % 16) * 16 + n / 16 % 16) * 16 + n % 16 = n := by omega
  simp only [hex4, List.map_cons, List.map_nil, run_cons, run_nil, feed, feedString,
    Values.hexVal?_hexDigit, Fin.ofNat, Except.bind, Nat.reduceLeDiff, if_false, Nat.reduceSub,
    zero_mul, zero_add, le_refl, if_true, hn]

/-- A code point of the basic plane that a character has is no surrogate. -/
theorem char_not_surrogate (c : Char) (h : c.toNat < 0x10000) :
    isHighSurrogate c.toNat = false ∧ isLowSurrogate c.toNat = false := by
  have hv : c.toNat < 0xd800 ∨ (0xdfff < c.toNat ∧ c.toNat < 0x110000) := c.valid
  simp only [isHighSurrogate, isLowSurrogate, Bool.and_eq_false_iff, decide_eq_false_iff_not]
  omega

/-- Two escapes that spell a surrogate pair are read as one code point. -/
theorem run_surrogates (isKey : Bool) (acc : CodePoints) {n : ℕ} (h : n < 0x100000) :
    run limit (stack, .string isKey acc .plain) ('\\' :: 'u' :: hex4 (0xd800 + n / 0x400) ++
      '\\' :: 'u' :: hex4 (0xdc00 + n % 0x400)) =
      .ok (stack, .string isKey (acc ++ [0x10000 + n]) .plain) := by
  have hhi : 0xd800 + n / 0x400 < 0x10000 := by omega
  have hlo : 0xdc00 + n % 0x400 < 0x10000 := by omega
  have hhigh : isHighSurrogate (0xd800 + n / 0x400) = true := by
    simp only [isHighSurrogate, Bool.and_eq_true, decide_eq_true_eq]; omega
  have hlow : isLowSurrogate (0xdc00 + n % 0x400) = true := by
    simp only [isLowSurrogate, Bool.and_eq_true, decide_eq_true_eq]; omega
  have hjoin : 0x10000 + (0xd800 + n / 0x400 - 0xd800) * 0x400 + (0xdc00 + n % 0x400 - 0xdc00) =
      0x10000 + n := by omega
  simp only [List.cons_append, run_cons, feed, feedString, if_pos, Except.bind,
    show ('\\' = '"') = False by decide, if_false]
  rw [run_append, run_hex4 limit stack isKey acc none hhi]
  simp only [afterEscape, hhigh, if_true, Except.bind, run_cons, feed, feedString,
    show ('\\' = '"') = False by decide, if_false]
  rw [run_hex4 limit stack isKey acc (some _) hlo]
  simp only [afterEscape, hlow, if_true, hjoin]

/-- Reading an escaped character inside a string appends its code point. -/
theorem run_escapeChar (isKey : Bool) (acc : CodePoints) (c : Char) :
    run limit (stack, .string isKey acc .plain) (escapeChar c) =
      .ok (stack, .string isKey (acc ++ [c.toNat]) .plain) := by
  unfold escapeChar
  split_ifs with h1 h2 h3 h4 h5 h6 h7 h8 h9
  -- the short escapes
  · subst h1; rfl
  · subst h2; rfl
  · subst h3; rfl
  · subst h4; rfl
  · subst h5; rfl
  · subst h6; rfl
  · subst h7; rfl
  · -- a printable character
    have h32 : ¬ c.toNat < 32 := by omega
    simp [feed, feedString, h1, h2, h32, Except.bind]
  · -- one escape
    obtain ⟨hhigh, -⟩ := char_not_surrogate c h9
    simp only [run_cons, feed, feedString, if_pos, Except.bind, if_false,
      show ('\\' = '"') = False by decide]
    rw [run_hex4 limit stack isKey acc none h9]
    simp [afterEscape, hhigh]
  · -- a surrogate pair
    have hv : c.toNat < 0xd800 ∨ (0xdfff < c.toNat ∧ c.toNat < 0x110000) := c.valid
    rw [run_surrogates limit stack isKey acc (n := c.toNat - 0x10000) (by omega),
      Nat.add_sub_cancel' (not_lt.mp h9)]

theorem run_escaped (isKey : Bool) : ∀ (cs : List Char) (acc : CodePoints),
    run limit (stack, .string isKey acc .plain) (cs.flatMap escapeChar) =
      .ok (stack, .string isKey (acc ++ cs.map Char.toNat) .plain)
  | [], acc => by simp
  | c :: cs, acc => by
      rw [List.flatMap_cons, run_append_of_ok limit (run_escapeChar limit stack isKey acc c),
        run_escaped isKey cs]
      simp

/-- Reading a quoted string up to and including its closing quote. -/
theorem run_quoted (isKey : Bool) (s : String) (rest : List Char) :
    run limit (stack, .string isKey [] .plain) (s.toList.flatMap escapeChar ++ '"' :: rest) =
      (afterString stack isKey (codePoints s)).bind (fun r => run limit r rest) := by
  rw [run_append_of_ok limit (run_escaped limit stack isKey s.toList [])]
  simp [feed, feedString, codePoints]

/-- `"key":"value"`. -/
def member (kv : String × String) : List Char := quote kv.1 ++ ([':'] ++ quote kv.2)

/-- Reading one member of an object. -/
theorem run_member (kvs : List (CodePoints × Text)) (key : CodePoints) (orClose : Bool)
    (kv : String × String) (rest : List Char) :
    run limit (.obj kvs key :: stack, .key orClose) (member kv ++ rest) =
      run limit (.obj kvs (codePoints kv.1) :: stack, .done (.str (codePoints kv.2))) rest := by
  simp only [member, quote, List.cons_append, List.append_assoc, List.nil_append, run_cons, feed,
    feedKey, show isSpace '"' = false by decide, if_false, Bool.false_eq_true, if_true, Except.bind]
  rw [run_quoted]
  simp only [afterString, if_true, Except.bind, run_cons, feed, feedValue,
    show isSpace ':' = false by decide, show isSpace '"' = false by decide, if_false,
    Bool.false_eq_true]
  rw [run_quoted]
  simp [afterString, Except.bind]

/-- The mapping as it is read back. -/
def textOf (kvs : List (String × String)) : List (CodePoints × Text) :=
  kvs.map (fun kv => (codePoints kv.1, .str (codePoints kv.2)))

theorem codePoints_injective : Function.Injective codePoints := fun _ _ h =>
  String.toList_inj.mp (List.map_injective_iff.mpr (fun _ _ hc => Char.toNat_inj.mp hc) h)

theorem setMember_new {kvs : List (CodePoints × Text)} {k : CodePoints} (v : Text)
    (h : k ∉ kvs.map Prod.fst) : setMember kvs k v = kvs ++ [(k, v)] := if_neg h

/-- Reading the members that are left, and the closing brace. -/
theorem run_members : ∀ (kvs : List (String × String)) (kv : String × String)
    (done : List (String × String)) (key : CodePoints) (orClose : Bool),
    ((done ++ kv :: kvs).map Prod.fst).Nodup →
    run limit (.obj (textOf done) key :: stack, .key orClose)
      (List.intercalate [','] ((kv :: kvs).map member) ++ ['}']) =
      .ok (stack, .done (.obj (textOf (done ++ kv :: kvs))))
  | kvs, kv, done, key, orClose, h => by
      have hnew : codePoints kv.1 ∉ (textOf done).map Prod.fst := by
        intro hmem
        simp only [textOf, List.map_map, List.mem_map, Function.comp_apply] at hmem
        obtain ⟨kv', hkv', heq⟩ := hmem
        rw [List.map_append, List.nodup_append] at h
        exact h.2.2 kv'.1 (List.mem_map_of_mem hkv') kv.1 (by simp) (codePoints_injective heq)
      have hset : setMember (textOf done) (codePoints kv.1) (.str (codePoints kv.2)) =
          textOf (done ++ [kv]) := by
        rw [setMember_new _ hnew]; simp [textOf]
      cases kvs with
      | nil =>
        simp only [List.map_cons, List.map_nil, List.intercalate_singleton]
        rw [run_member]
        simp [feed, afterValue, hset, show isSpace '}' = false by decide, Except.bind]
      | cons kv' kvs =>
        rw [List.map_cons, List.map_cons, List.intercalate_cons_cons, List.append_assoc,
          List.append_assoc, run_member]
        simp only [List.cons_append, List.nil_append, run_cons, feed, afterValue,
          show isSpace ',' = false by decide, Bool.false_eq_true, if_false, if_true, hset,
          Except.bind]
        have hrest := run_members kvs kv' (done ++ [kv]) [] false (by simpa using h)
        rw [List.map_cons] at hrest
        simpa using hrest

end RoundTrip

/-- Reading a written mapping with distinct keys gives that mapping, at any recursion limit. -/
theorem loads_dumps (limit : ℕ) (kvs : List (String × String)) (h : (kvs.map Prod.fst).Nodup) :
    loads limit (dumps kvs) = .ok (.obj (textOf kvs)) := by
  have hbom : ('{').toNat ≠ 0xfeff := by decide
  have htext : (dumps kvs).toList = '{' :: (List.intercalate [','] (kvs.map member) ++ ['}']) := by
    rw [dumps, dumpsWith, String.toList_ofList]; rfl
  rw [loads, htext]
  simp only [hbom, if_false]
  rw [run_cons]
  simp only [feed, feedValue.eq_def, openContainer, show isSpace '{' = false by decide,
    Bool.false_eq_true, if_false, if_true,
    List.length_nil, Nat.not_lt_zero, Except.bind, show ('{' = '"') = False by decide,
    show ('{' = '[') = False by decide]
  cases kvs with
  | nil => rfl
  | cons kv kvs =>
    have hrun := run_members limit [] kvs kv [] [] true (by simpa using h)
    simp only [textOf, List.map_nil, List.nil_append] at hrun
    rw [hrun]
    rfl

end Json
