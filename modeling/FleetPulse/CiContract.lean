import FleetPulse.Lib.LineMatches
import FleetPulse.Lib.Sequences

/-! `runtime_image_contract`: the gate that wants every image of the running system pinned to a digest.

    It looks at the second word of a Dockerfile's first line, at the images of the Compose services,
    and at the lines of a manifest that consist of `image:` and one word behind white space. What
    declares an image is said here apart from what the gate looks at: the `FROM` instructions of a
    Dockerfile, and the image lines of a manifest in block style. -/

namespace FleetPulse
open Regex

/-! ### Texts -/

/-- `\s`, and what `str.split` splits at. -/
def isWhitespace (c : Char) : Bool :=
  let n := c.toNat
  (9 ≤ n && n ≤ 13) || (28 ≤ n && n ≤ 32) || n = 0x85 || n = 0xA0 || n = 0x1680 ||
    (0x2000 ≤ n && n ≤ 0x200A) || n = 0x2028 || n = 0x2029 || n = 0x202F || n = 0x205F || n = 0x3000

/-- What `str.splitlines` ends a line at. -/
def isLineBreak (c : Char) : Bool :=
  let n := c.toNat
  (10 ≤ n && n ≤ 13) || (28 ≤ n && n ≤ 30) || n = 0x85 || n = 0x2028 || n = 0x2029

/-- `text.splitlines()[0]`. -/
def firstLine (text : List Char) : Option (List Char) :=
  if text = [] then none else some (text.takeWhile (fun c => !isLineBreak c))

/-- `text.split()`. -/
def words (text : List Char) : List (List Char) :=
  (text.splitOnP isWhitespace).filter (fun word => word ≠ [])

/-- `[0-9a-f]`. -/
def isHexDigit (c : Char) : Bool := ('0' ≤ c && c ≤ '9') || ('a' ≤ c && c ≤ 'f')

/-- A text as it stands, character by character. -/
def literalClasses (text : List Char) : List CharClass := text.map (fun p c => decide (c = p))

/-- `@sha256:[0-9a-f]{64}`. -/
def digestClasses : List CharClass :=
  literalClasses "@sha256:".toList ++ List.replicate 64 isHexDigit

/-- `DIGEST_REF.search(text) is not None`; without MULTILINE, `$` is at the end or before a last
    newline. -/
def digestSearch (text : List Char) : Bool :=
  text.tails.any (fun t => beginsWith digestClasses t &&
    (t.drop digestClasses.length = [] || t.drop digestClasses.length = ['\n']))

/-! ### The gate -/

inductive ContractError where
  | assertion (message : String)
  | index
  deriving DecidableEq

def require (condition : Bool) (message : String) : Except ContractError Unit :=
  if condition then .ok () else .error (.assertion message)

/-- The check of one Dockerfile. -/
def dockerfileContract (path : String) (text : List Char) : Except ContractError Unit :=
  match firstLine text with
  | none => .error .index
  | some line =>
    match (words line)[1]? with
    | none => .error .index
    | some base => require (digestSearch base) ("base image not pinned: " ++ path)

/-- The check of one Compose service. -/
def composeContract (name : String) (image : Option String) : Except ContractError Unit :=
  match image with
  | none => .ok ()
  | some image =>
    if image = "" then .ok ()
    else require (digestSearch image.toList) ("Compose image not pinned: " ++ name)

/-- `\s+image:\s+(\S+)`. -/
def imagePattern : Regex :=
  .seq (.many false 1 isWhitespace) (.seq (.chars (literalClasses "image:".toList))
    (.seq (.many false 1 isWhitespace) (.group 1 (.many false 1 (fun c => !isWhitespace c)))))

/-- `image.startswith("fleetpulse-")`. -/
def isOwnImage (image : List Char) : Bool := "fleetpulse-".toList.isPrefixOf image

/-- The check of one image of a manifest. -/
def imageContract (image : List Char) : Except ContractError Unit :=
  if isOwnImage image then .ok ()
  else require (digestSearch image) ("Kubernetes image not pinned: " ++ String.ofList image)

/-- The images that the gate finds in a manifest. -/
def scannedImages (text : List Char) : List (List Char) :=
  (finditer (firstOnLines imagePattern) 0 none text).map (fun m => m.group 1)

/-- `runtime_image_contract()`, on the texts of the files and the services of `compose.yaml`. -/
def runtimeImageContract (dockerfiles : List (String × List Char))
    (services : List (String × Option String)) (manifests : List (List Char)) :
    Except ContractError Unit := do
  dockerfiles.forM (fun file => dockerfileContract file.1 file.2)
  services.forM (fun service => composeContract service.1 service.2)
  manifests.forM (fun text => (scannedImages text).forM imageContract)

/-! ### What declares an image -/

/-- A reference that ends in a digest. -/
def IsPinned (reference : List Char) : Prop := ∃ name digest,
  reference = name ++ ("@sha256:".toList ++ digest) ∧ digest.length = 64 ∧
    ∀ c ∈ digest, isHexDigit c = true

/-- A line of a Dockerfile that the builder passes over. -/
def isSkipped (line : List Char) : Bool :=
  match line.dropWhile isWhitespace with
  | [] => true
  | c :: _ => c = '#'

/-- The instructions of a Dockerfile: its lines without comments, joined where one ends in a
    backslash. -/
def instructions (pending : Option (List Char)) : List (List Char) → List (List Char)
  | [] => pending.toList
  | line :: lines =>
    if isSkipped line then instructions pending lines
    else
      match (pending.getD [] ++ line).reverse.dropWhile isWhitespace with
      | '\\' :: rest => instructions (some rest.reverse) lines
      | _ => (pending.getD [] ++ line) :: instructions none lines

/-- The image of a `FROM` instruction behind its flags, and the name that it gives to the stage. -/
def fromInstruction (line : List Char) : Option (List Char × Option (List Char)) :=
  match words line with
  | keyword :: arguments =>
    if keyword.map Char.toLower = "from".toList then
      match arguments.dropWhile (fun word => "--".toList.isPrefixOf word) with
      | [image, _, name] => some (image, some (name.map Char.toLower))
      | image :: _ => some (image, none)
      | [] => none
    else none
  | [] => none

/-- The images of `FROM` instructions that are neither `scratch` nor an earlier stage. -/
def externalImages (stages : List (List Char)) : List (List Char) → List (List Char)
  | [] => []
  | line :: lines =>
    match fromInstruction line with
    | none => externalImages stages lines
    | some (image, name) =>
      if image = "scratch".toList ∨ image.map Char.toLower ∈ stages then
        externalImages (name.toList ++ stages) lines
      else image :: externalImages (name.toList ++ stages) lines

/-- The external images that a Dockerfile names. -/
def baseImages (text : List Char) : List (List Char) :=
  externalImages [] (instructions none (text.splitOn '\n'))

/-- A character of an image reference. -/
def isReferenceChar (c : Char) : Bool := !isWhitespace c && c ≠ '"' && c ≠ '\'' && c ≠ '#'

/-- A line that declares a container image in block style. -/
structure ImageLine where
  indent : ℕ
  marker : Bool
  gap : ℕ
  quote : List Char
  reference : List Char
  comment : List Char
  quote_valid : quote = [] ∨ quote = ['"'] ∨ quote = ['\'']
  reference_valid : reference ≠ [] ∧ ∀ c ∈ reference, isReferenceChar c = true
  comment_valid : comment = [] ∨ ∃ n text,
    comment = List.replicate (n + 1) ' ' ++ '#' :: text ∧ '\n' ∉ text

namespace ImageLine

/-- The reference as it stands in the line. -/
def token (line : ImageLine) : List Char := line.quote ++ line.reference ++ line.quote

def text (line : ImageLine) : List Char :=
  List.replicate line.indent ' ' ++ ((if line.marker then "- ".toList else []) ++
    ("image:".toList ++ (List.replicate (line.gap + 1) ' ' ++ (line.token ++ line.comment))))

/-- The line is one of the text. -/
def IsIn (line : ImageLine) (text : List Char) : Prop := ∃ before after,
  text = before ++ (line.text ++ after) ∧ startsLine before.getLast? = true ∧ endsLine after = true

/-- White space, `image:` and one word: what the gate looks for. -/
def InView (line : ImageLine) : Prop :=
  0 < line.indent ∧ line.marker = false ∧ line.comment = []

end ImageLine

/-! ### What the gate finds -/

def imageKey : List Char := "image:".toList

/-- A match of the pattern, cut into its parts, and what follows it. -/
structure ImageMatch (s : List Char) (m : Match) (space gap word rest : List Char) : Prop where
  split : s = space ++ (imageKey ++ (gap ++ (word ++ rest)))
  text : m.text = space ++ (imageKey ++ (gap ++ word))
  group : m.group 1 = word
  space_ne : space ≠ []
  space_all : ∀ c ∈ space, isWhitespace c = true
  gap_ne : gap ≠ []
  gap_all : ∀ c ∈ gap, isWhitespace c = true
  word_ne : word ≠ []
  word_all : ∀ c ∈ word, (!isWhitespace c) = true

section
variable {prev : Option Char} {s space gap word rest : List Char} {m : Match}

theorem beginsWith_literalClasses {t : List Char} : ∀ {s : List Char},
    beginsWith (literalClasses t) s = true ↔ t <+: s := by
  induction t with
  | nil => simp [literalClasses, beginsWith]
  | cons p t ih =>
    intro s
    cases s with
    | nil => simp [literalClasses, beginsWith]
    | cons c s =>
      have hrest := ih (s := s)
      simp only [literalClasses] at hrest
      simp only [literalClasses, List.map_cons, beginsWith, Bool.and_eq_true, decide_eq_true_eq,
        hrest, List.cons_prefix_cons]
      exact and_congr_left (fun _ => eq_comm)

theorem mem_literalClasses {t : List Char} : m ∈ (Regex.chars (literalClasses t)).allMatches prev s ↔
    m = ⟨t, []⟩ ∧ t <+: s := by
  rw [mem_chars, beginsWith_literalClasses, literalClasses, List.length_map]
  exact and_congr_left (fun h => by rw [← List.prefix_iff_eq_take.mp h])

theorem ne_nil_iff_length {l : List Char} : 1 ≤ l.length ↔ l ≠ [] := List.length_pos_iff

theorem mem_imagePattern : m ∈ imagePattern.allMatches prev s →
    ∃ space gap word rest, ImageMatch s m space gap word rest := by
  rw [imagePattern, mem_seq_append]
  rintro ⟨a, b, r₁, rfl, ha, hb, rfl⟩
  obtain ⟨key, c, r₂, rfl, hkey, hc, rfl⟩ := mem_seq_append.mp hb
  obtain ⟨g, d, r₃, rfl, hg, hd, rfl⟩ := mem_seq_append.mp hc
  obtain ⟨w, hw, rfl⟩ := mem_group.mp hd
  obtain ⟨rfl, -⟩ := mem_literalClasses.mp hkey
  obtain ⟨hnogroups, hspace, -, hspaces⟩ := mem_many.mp ha
  obtain ⟨hgroups, hgap, -, hgaps⟩ := mem_many.mp hg
  obtain ⟨hwgroups, hword, ⟨rest, rfl⟩, hwords⟩ := mem_many.mp hw
  refine ⟨a.text, g.text, w.text, rest, ⟨rfl, rfl, ?_, ne_nil_iff_length.mp hspace, hspaces,
    ne_nil_iff_length.mp hgap, hgaps, ne_nil_iff_length.mp hword, hwords⟩⟩
  simp [Match.group, hnogroups, hgroups]

theorem exists_mem_imagePattern (hspace : space ≠ []) (hspaces : ∀ c ∈ space, isWhitespace c = true)
    (hgap : gap ≠ []) (hgaps : ∀ c ∈ gap, isWhitespace c = true) (hword : word ≠ [])
    (hwords : ∀ c ∈ word, (!isWhitespace c) = true) :
    ∃ m ∈ imagePattern.allMatches prev (space ++ (imageKey ++ (gap ++ (word ++ rest)))),
      m.text = space ++ (imageKey ++ (gap ++ word)) := by
  refine ⟨⟨space ++ (imageKey ++ (gap ++ word)), [(1, word)]⟩, ?_, rfl⟩
  rw [imagePattern]
  refine mem_seq_append.mpr ⟨⟨space, []⟩, ⟨imageKey ++ (gap ++ word), [(1, word)]⟩, _, rfl,
    mem_many.mpr ⟨rfl, ne_nil_iff_length.mpr hspace, List.prefix_append .., hspaces⟩, ?_, rfl⟩
  refine mem_seq_append.mpr ⟨⟨imageKey, []⟩, ⟨gap ++ word, [(1, word)]⟩, _, rfl,
    mem_literalClasses.mpr ⟨rfl, List.prefix_append ..⟩, ?_, rfl⟩
  refine mem_seq_append.mpr ⟨⟨gap, []⟩, ⟨word, [(1, word)]⟩, _, rfl,
    mem_many.mpr ⟨rfl, ne_nil_iff_length.mpr hgap, List.prefix_append .., hgaps⟩, ?_, rfl⟩
  exact mem_group.mpr ⟨⟨word, []⟩,
    mem_many.mpr ⟨rfl, ne_nil_iff_length.mpr hword, List.prefix_append .., hwords⟩, rfl⟩

theorem firstOnLines_imagePattern (h : firstOnLines imagePattern prev s = some m) :
    ∃ space gap word rest, ImageMatch s m space gap word rest ∧ endsLine rest = true := by
  obtain ⟨-, hm, hend⟩ := firstOnLines_mem h
  obtain ⟨space, gap, word, rest, hmatch⟩ := mem_imagePattern hm
  refine ⟨space, gap, word, rest, hmatch, ?_⟩
  rw [hmatch.text, hmatch.split] at hend
  simpa using hend

theorem head_of_word {tail : List Char} (hword : word ≠ [])
    (hwords : ∀ c ∈ word, (!isWhitespace c) = true) :
    ∀ c ∈ (word ++ tail).head?, isWhitespace c = false := by
  intro c hc
  obtain ⟨d, word, rfl⟩ := List.exists_cons_of_ne_nil hword
  obtain rfl : d = c := by simpa using hc
  simpa using hwords d List.mem_cons_self

theorem head_of_endsLine (h : endsLine rest = true) :
    ∀ c ∈ rest.head?, (!isWhitespace c) = false := by
  intro c hc
  have hbreak := (Option.all_eq_true _ _).mp h c hc
  obtain rfl : c = '\n' := by simpa using hbreak
  decide

theorem key_ne : imageKey ≠ [] := by decide

theorem key_word : ∀ c ∈ imageKey, (!isWhitespace c) = true := by decide

/-- Two texts with the key behind white space, and a word behind it, have the same word. -/
theorem word_unique {space' gap' word' rest' : List Char}
    (h : space ++ (imageKey ++ (gap ++ (word ++ rest))) =
      space' ++ (imageKey ++ (gap' ++ (word' ++ rest'))))
    (hspace : ∀ c ∈ space, isWhitespace c = true) (hspace' : ∀ c ∈ space', isWhitespace c = true)
    (hgap : ∀ c ∈ gap, isWhitespace c = true) (hgap' : ∀ c ∈ gap', isWhitespace c = true)
    (hword : word ≠ []) (hword' : word' ≠ [])
    (hwords : ∀ c ∈ word, (!isWhitespace c) = true)
    (hwords' : ∀ c ∈ word', (!isWhitespace c) = true)
    (hrest : endsLine rest = true) (hrest' : endsLine rest' = true) : word = word' := by
  obtain ⟨rfl, htail⟩ := run_unique h hspace hspace' (head_of_word key_ne key_word)
    (head_of_word key_ne key_word)
  obtain ⟨rfl, hword'⟩ := run_unique (List.append_cancel_left htail) hgap hgap'
    (head_of_word hword hwords) (head_of_word hword' hwords')
  exact (run_unique hword' hwords hwords' (head_of_endsLine hrest) (head_of_endsLine hrest')).1

/-- Where the key with spaces behind it is taken for a word, the line goes on behind the word. -/
theorem not_endsLine_of_key {n : ℕ} {tail : List Char}
    (h : space ++ (imageKey ++ (List.replicate (n + 1) ' ' ++ tail)) = gap ++ (word ++ rest))
    (hspace : ∀ c ∈ space, isWhitespace c = true) (hgap : ∀ c ∈ gap, isWhitespace c = true)
    (hword : word ≠ []) (hwords : ∀ c ∈ word, (!isWhitespace c) = true) : ¬ endsLine rest = true := by
  obtain ⟨rfl, hkey⟩ := run_unique h hspace hgap (head_of_word key_ne key_word)
    (head_of_word hword hwords)
  intro hend
  obtain ⟨-, rfl⟩ := run_unique hkey key_word hwords (by simp [List.replicate_succ, isWhitespace])
    (head_of_endsLine hend)
  simp [List.replicate_succ, endsLine] at hend

end

/-- A nonempty text whose last character is `a`, cut across: the piece that `a` falls into has it. -/
theorem append_cases {b v x y : List Char} {a : Char} (h : b ++ v = x ++ y)
    (hb : b.getLast? = some a) :
    (a ∈ x ∧ ∃ x', x = b ++ x' ∧ v = x' ++ y) ∨ ∃ b', b = x ++ b' ∧ b'.getLast? = some a ∧
      b' ++ v = y := by
  have hmem : a ∈ b := List.mem_of_getLast? hb
  rcases List.append_eq_append_iff.mp h with ⟨x', rfl, rfl⟩ | ⟨b', rfl, rfl⟩
  · exact .inl ⟨List.mem_append_left x' hmem, x', rfl, rfl⟩
  · rcases List.eq_nil_or_concat b' with rfl | ⟨b', d, rfl⟩
    · rw [List.append_nil] at hmem
      exact .inl ⟨hmem, [], by simp, rfl⟩
    · refine .inr ⟨b' ++ [d], by simp, ?_, by simp⟩
      simpa using hb

theorem ImageLine.token_valid (line : ImageLine) : line.token ≠ [] ∧
    ∀ c ∈ line.token, (!isWhitespace c) = true := by
  obtain ⟨hne, hall⟩ := line.reference_valid
  refine ⟨?_, ?_⟩
  · simp [token, hne]
  · have hquote : ∀ c ∈ line.quote, (!isWhitespace c) = true := by
      intro c hc
      rcases line.quote_valid with h | h | h <;> rw [h] at hc <;> simp at hc
      all_goals subst hc; decide
    intro c hc
    rcases List.mem_append.mp hc with hc | hc
    · rcases List.mem_append.mp hc with hc | hc
      · exact hquote c hc
      · have := hall c hc
        simp only [isReferenceChar, Bool.and_eq_true] at this
        exact this.1.1.1
    · exact hquote c hc

/-- A line in view is what the pattern looks for. -/
theorem ImageLine.text_of_inView {line : ImageLine} (h : line.InView) (after : List Char) :
    line.text ++ after = List.replicate line.indent ' ' ++ (imageKey ++
      (List.replicate (line.gap + 1) ' ' ++ (line.token ++ after))) := by
  obtain ⟨-, hmarker, hcomment⟩ := h
  simp [text, hmarker, hcomment, imageKey]

theorem spaces_isWhitespace {n : ℕ} : ∀ c ∈ List.replicate n ' ', isWhitespace c = true := by
  intro c hc
  rw [List.eq_of_mem_replicate hc]
  decide

/-- The gate sees the reference of every line in view: no match takes the line away. -/
theorem ImageLine.token_scanned {line : ImageLine} {text : List Char} (h : line.IsIn text)
    (hview : line.InView) : line.token ∈ scannedImages text := by
  obtain ⟨before, after, rfl, hstart, hend⟩ := h
  obtain ⟨htoken, htokens⟩ := line.token_valid
  have hindent : List.replicate line.indent ' ' ≠ [] := by
    simpa using hview.1.ne'
  have hgap : List.replicate (line.gap + 1) ' ' ≠ [] := by simp
  rw [line.text_of_inView hview, scannedImages]
  set spaces := List.replicate line.indent ' ' with hspaces
  set gap := List.replicate (line.gap + 1) ' ' with hgaps
  suffices hfound : ∃ m ∈ finditer (firstOnLines imagePattern) 0 none
      (before ++ (spaces ++ (imageKey ++ (gap ++ (line.token ++ after))))),
      m.group 1 = line.token by
    obtain ⟨m, hm, hgroup⟩ := hfound
    exact List.mem_map.mpr ⟨m, hm, hgroup⟩
  refine exists_mem_finditer (by simp [hindent]) (Nat.zero_le _) ?_ ?_
  · obtain ⟨m, hm, htext⟩ := @exists_mem_imagePattern (lastOr none before) _ _ _ after
      hindent spaces_isWhitespace hgap spaces_isWhitespace htoken htokens
    obtain ⟨m', hm'⟩ := exists_firstOnLines (by simpa [lastOr] using hstart) hm
      (by rw [htext]; simpa using hend)
    obtain ⟨space, gap', word, rest, hmatch, hrest⟩ := firstOnLines_imagePattern hm'
    exact ⟨m', hm', hmatch.group.trans (word_unique hmatch.split.symm hmatch.space_all
      spaces_isWhitespace hmatch.gap_all spaces_isWhitespace hmatch.word_ne htoken hmatch.word_all
      htokens hrest hend)⟩
  · intro a b m hbefore hb hfirst hlong
    obtain ⟨space, gap', word, rest, hmatch, hrest⟩ := firstOnLines_imagePattern hfirst
    have hlast : b.getLast? = some '\n' := by
      rw [hbefore, List.getLast?_append_of_ne_nil _ hb] at hstart
      obtain ⟨c, hc⟩ := Option.ne_none_iff_exists'.mp (mt List.getLast?_eq_none_iff.mp hb)
      rw [hc] at hstart ⊢
      simpa [startsLine] using hstart
    rcases append_cases hmatch.split hlast with ⟨-, space', hspace, hsplit⟩ | ⟨b₁, hb₁, hlast₁, hsplit₁⟩
    · -- The match is on its way to the key of the line.
      refine hmatch.group.trans (word_unique hsplit.symm ?_ spaces_isWhitespace hmatch.gap_all
        spaces_isWhitespace hmatch.word_ne htoken hmatch.word_all htokens hrest hend)
      intro c hc
      exact hmatch.space_all c (hspace ▸ List.mem_append_right b hc)
    rcases append_cases hsplit₁ hlast₁ with ⟨hkey, -⟩ | ⟨b₂, hb₂, hlast₂, hsplit₂⟩
    · exact absurd hkey (by decide)
    rcases append_cases hsplit₂ hlast₂ with ⟨-, gap₂, hgap₂, hsplit₃⟩ | ⟨b₃, hb₃, hlast₃, hsplit₃⟩
    · -- The match has the key of the line for its word, and does not end there.
      refine absurd hrest (not_endsLine_of_key hsplit₃ spaces_isWhitespace ?_
        hmatch.word_ne hmatch.word_all)
      intro c hc
      exact hmatch.gap_all c (hgap₂ ▸ List.mem_append_right b₂ hc)
    rcases append_cases hsplit₃ hlast₃ with ⟨hword, -⟩ | ⟨b₄, hb₄, -⟩
    · exact absurd (hmatch.word_all '\n' hword) (by decide)
    · -- All of the match stands in front of the line.
      rw [hmatch.text, hb₁, hb₂, hb₃, hb₄] at hlong
      simp only [List.length_append] at hlong
      omega

/-! ### What the gate accepts -/

theorem beginsWith_append {cs ds : List CharClass} : ∀ {s : List Char},
    beginsWith (cs ++ ds) s = true ↔
      beginsWith cs s = true ∧ beginsWith ds (s.drop cs.length) = true := by
  induction cs with
  | nil => simp [beginsWith]
  | cons p cs ih => rintro (_ | ⟨c, s⟩) <;> simp [beginsWith, ih, and_assoc]

theorem beginsWith_replicate {cls : CharClass} {n : ℕ} : ∀ {s : List Char},
    beginsWith (List.replicate n cls) s = true ↔
      ∃ t rest, s = t ++ rest ∧ t.length = n ∧ ∀ c ∈ t, cls c = true := by
  induction n with
  | zero => simp [beginsWith]
  | succ n ih =>
    rintro (_ | ⟨c, s⟩)
    · simp [beginsWith, List.replicate_succ]
    · rw [List.replicate_succ, beginsWith, Bool.and_eq_true, ih]
      constructor
      · rintro ⟨hc, t, rest, rfl, hlength, ht⟩
        exact ⟨c :: t, rest, rfl, by simp [hlength], by simpa [hc] using ht⟩
      · rintro ⟨t, rest, hs, hlength, ht⟩
        obtain ⟨d, t, rfl⟩ := List.exists_cons_of_length_eq_add_one hlength
        obtain ⟨rfl, rfl⟩ := List.cons.inj hs
        exact ⟨ht c List.mem_cons_self, t, rest, rfl, by simpa using hlength,
          fun d hd => ht d (List.mem_cons_of_mem _ hd)⟩

theorem beginsWith_digestClasses {s : List Char} : beginsWith digestClasses s = true ↔
    ∃ digest rest, s = ("@sha256:".toList ++ digest) ++ rest ∧ digest.length = 64 ∧
      ∀ c ∈ digest, isHexDigit c = true := by
  rw [digestClasses, beginsWith_append, beginsWith_literalClasses, beginsWith_replicate,
    literalClasses, List.length_map]
  constructor
  · rintro ⟨⟨tail, rfl⟩, digest, rest, htail, hlength, hdigits⟩
    rw [List.drop_left] at htail
    exact ⟨digest, rest, by rw [htail, List.append_assoc], hlength, hdigits⟩
  · rintro ⟨digest, rest, rfl, hlength, hdigits⟩
    rw [List.append_assoc, List.drop_left]
    exact ⟨List.prefix_append .., digest, rest, rfl, hlength, hdigits⟩

/-- On a text of one line, the search finds what a reference ends in. -/
theorem digestSearch_iff {text : List Char} (h : '\n' ∉ text) :
    digestSearch text = true ↔ IsPinned text := by
  have hdrop : ∀ {digest rest : List Char}, digest.length = 64 →
      (("@sha256:".toList ++ digest) ++ rest).drop digestClasses.length = rest := by
    intro digest rest hlength
    exact List.drop_left' (by simp [digestClasses, literalClasses, hlength])
  simp only [digestSearch, List.any_eq_true, List.mem_tails, Bool.and_eq_true,
    beginsWith_digestClasses]
  constructor
  · rintro ⟨-, ⟨name, rfl⟩, ⟨digest, rest, rfl, hlength, hdigits⟩, hend⟩
    rw [hdrop hlength, Bool.or_eq_true, decide_eq_true_eq, decide_eq_true_eq] at hend
    rcases hend with rfl | rfl
    · exact ⟨name, digest, by simp, hlength, hdigits⟩
    · simp at h
  · rintro ⟨name, digest, rfl, hlength, hdigits⟩
    refine ⟨_, List.suffix_append name _, ⟨digest, [], by simp, hlength, hdigits⟩, ?_⟩
    rw [← List.append_nil ("@sha256:".toList ++ digest), hdrop hlength]
    rfl

theorem forM_eq_ok {α ε : Type} {f : α → Except ε Unit} : ∀ {l : List α},
    l.forM f = .ok () ↔ ∀ a ∈ l, f a = .ok ()
  | [] => by simp [pure, Except.pure]
  | a :: l => by
      rw [List.forall_mem_cons, ← @forM_eq_ok α ε f l, List.forM]
      cases f a <;> simp [bind, Except.bind]

theorem require_eq_ok {condition : Bool} {message : String} :
    require condition message = .ok () ↔ condition = true := by
  cases condition <;> simp [require]

/-- The word that the gate takes for the base image. -/
def checkedBase (text : List Char) : Option (List Char) :=
  (firstLine text).bind (fun line => (words line)[1]?)

theorem runtimeImageContract_eq_ok {dockerfiles : List (String × List Char)}
    {services : List (String × Option String)} {manifests : List (List Char)}
    (h : runtimeImageContract dockerfiles services manifests = .ok ()) :
    (∀ file ∈ dockerfiles, dockerfileContract file.1 file.2 = .ok ()) ∧
      ∀ text ∈ manifests, ∀ image ∈ scannedImages text, imageContract image = .ok () := by
  rw [runtimeImageContract] at h
  cases hdocker : dockerfiles.forM (fun file => dockerfileContract file.1 file.2) with
  | error e => rw [hdocker] at h; cases h
  | ok =>
    rw [hdocker] at h
    cases hservices : services.forM (fun service => composeContract service.1 service.2) with
    | error e => rw [hservices] at h; cases h
    | ok =>
      rw [hservices] at h
      exact ⟨forM_eq_ok.mp hdocker, fun text ht => forM_eq_ok.mp (forM_eq_ok.mp h text ht)⟩

theorem dockerfileContract_eq_ok {path : String} {text : List Char}
    (h : dockerfileContract path text = .ok ()) :
    ∃ base, checkedBase text = some base ∧ digestSearch base = true := by
  unfold dockerfileContract at h
  split at h
  · cases h
  · next line hline =>
    split at h
    · cases h
    · next base hbase => exact ⟨base, by rw [checkedBase, hline]; exact hbase, require_eq_ok.mp h⟩

theorem imageContract_eq_ok {image : List Char} (h : imageContract image = .ok ()) :
    isOwnImage image = true ∨ digestSearch image = true := by
  unfold imageContract at h
  split at h
  · next hown => exact .inl hown
  · exact .inr (require_eq_ok.mp h)

theorem splitOnP_separates {p : Char → Bool} : ∀ {text word : List Char},
    word ∈ text.splitOnP p → ∀ c ∈ word, p c = false
  | [], word, hword => by
      rw [List.splitOnP_nil, List.mem_singleton] at hword
      simp [hword]
  | x :: text, word, hword => by
      rw [List.splitOnP_cons_eq_if_modifyHead] at hword
      split at hword
      · rcases List.mem_cons.mp hword with rfl | hword
        · simp
        · exact splitOnP_separates hword
      · next hx =>
        cases hsplit : text.splitOnP p with
        | nil => exact absurd hsplit (List.splitOnP_ne_nil p text)
        | cons first others =>
          have hrest : ∀ w ∈ first :: others, ∀ c ∈ w, p c = false := fun w hw =>
            splitOnP_separates (hsplit ▸ hw)
          rw [hsplit, List.modifyHead_cons, List.mem_cons] at hword
          rcases hword with rfl | hword
          · rintro c (_ | ⟨_, hc⟩)
            · simpa using hx
            · exact hrest first List.mem_cons_self c hc
          · exact hrest word (List.mem_cons_of_mem _ hword)

/-- The word that the gate takes for the base image is pinned. -/
theorem isPinned_checkedBase {path : String} {text image : List Char}
    (h : dockerfileContract path text = .ok ()) (himage : checkedBase text = some image) :
    IsPinned image := by
  obtain ⟨base, hbase, hdigest⟩ := dockerfileContract_eq_ok h
  obtain rfl : base = image := Option.some.inj (hbase.symm.trans himage)
  refine (digestSearch_iff ?_).mp hdigest
  obtain ⟨line, -, hline⟩ := Option.bind_eq_some_iff.mp hbase
  have hword := List.mem_of_getElem? hline
  intro hbreak
  exact absurd (splitOnP_separates (List.mem_of_mem_filter hword) '\n' hbreak) (by decide)

namespace ImageLine

/-- What is in quotes does not end in a digest. -/
theorem quote_of_isPinned {line : ImageLine} (h : IsPinned line.token) : line.quote = [] := by
  obtain ⟨name, digest, htoken, hlength, hdigits⟩ := h
  have hdigest : digest ≠ [] := by
    rintro rfl
    simp at hlength
  by_contra hquote
  have hlast : digest.getLast? = line.quote.getLast? := by
    rw [← List.getLast?_append_of_ne_nil (name ++ "@sha256:".toList) hdigest, List.append_assoc,
      ← htoken, token, List.getLast?_append_of_ne_nil _ hquote]
  rcases line.quote_valid with hq | hq | hq
  · exact hquote hq
  · rw [hq] at hlast
    exact absurd (hdigits _ (List.mem_of_getLast? hlast)) (by decide)
  · rw [hq] at hlast
    exact absurd (hdigits _ (List.mem_of_getLast? hlast)) (by decide)

theorem isOwnImage_token {line : ImageLine} (h : isOwnImage line.reference = false) :
    isOwnImage line.token = false := by
  rcases line.quote_valid with hq | hq | hq
  · simpa [token, hq] using h
  · rw [token, hq]; rfl
  · rw [token, hq]; rfl

/-- An accepted line in view is pinned. -/
theorem isPinned_of_inView {line : ImageLine} {text : List Char}
    (h : ∀ image ∈ scannedImages text, imageContract image = .ok ()) (hline : line.IsIn text)
    (hview : line.InView) (hown : isOwnImage line.reference = false) :
    IsPinned line.reference := by
  have hpinned : IsPinned line.token := by
    rcases imageContract_eq_ok (h _ (line.token_scanned hline hview)) with htoken | hdigest
    · rw [isOwnImage_token hown] at htoken
      cases htoken
    · refine (digestSearch_iff ?_).mp hdigest
      intro hbreak
      exact absurd (line.token_valid.2 '\n' hbreak) (by decide)
  have hquote := quote_of_isPinned hpinned
  simpa [token, hquote] using hpinned

end ImageLine

/-- Every external image is pinned. -/
def ImagesPinned (dockerfiles : List (String × List Char)) (manifests : List (List Char)) : Prop :=
  (∀ file ∈ dockerfiles, ∀ image ∈ baseImages file.2, IsPinned image) ∧
    ∀ text ∈ manifests, ∀ line : ImageLine, line.IsIn text →
      isOwnImage line.reference = false → IsPinned line.reference

/-- Every external image is pinned that is named where the gate does not look: behind another word
    or another line of its Dockerfile than the second and the first, or in a line of a manifest with
    a list marker, a comment or no indentation. -/
def OverlookedPinned (dockerfiles : List (String × List Char)) (manifests : List (List Char)) :
    Prop :=
  (∀ file ∈ dockerfiles, ∀ image ∈ baseImages file.2, checkedBase file.2 ≠ some image →
    IsPinned image) ∧
    ∀ text ∈ manifests, ∀ line : ImageLine, line.IsIn text → ¬ line.InView →
      isOwnImage line.reference = false → IsPinned line.reference

/-- What the gate accepts is pinned exactly when what it overlooks is. -/
theorem accepted_images_pinned {dockerfiles : List (String × List Char)}
    {services : List (String × Option String)} {manifests : List (List Char)}
    (h : runtimeImageContract dockerfiles services manifests = .ok ()) :
    ImagesPinned dockerfiles manifests ↔ OverlookedPinned dockerfiles manifests := by
  obtain ⟨hdocker, hmanifests⟩ := runtimeImageContract_eq_ok h
  constructor
  · rintro ⟨hbases, hlines⟩
    exact ⟨fun file hfile image himage _ => hbases file hfile image himage,
      fun text htext line hline _ => hlines text htext line hline⟩
  · rintro ⟨hbases, hlines⟩
    refine ⟨?_, ?_⟩
    · intro file hfile image himage
      by_cases hchecked : checkedBase file.2 = some image
      · exact isPinned_checkedBase (hdocker file hfile) hchecked
      · exact hbases file hfile image himage hchecked
    · intro text htext line hline hown
      by_cases hview : line.InView
      · exact ImageLine.isPinned_of_inView (hmanifests text htext) hline hview hown
      · exact hlines text htext line hline hview hown

/-- A first stage from a pinned image. -/
def pinnedBase : List Char := "FROM python@sha256:".toList ++ List.replicate 64 '0'

/-- A container with a pinned image, in view. -/
def pinnedLine : List Char := "\n  image: redis@sha256:".toList ++ List.replicate 64 '0'

theorem accepted_images_pinned_alike :
    ImagesPinned [("services/api/Dockerfile", pinnedBase)] [pinnedLine] ↔
      OverlookedPinned [("services/api/Dockerfile", pinnedBase)] [pinnedLine] :=
  @accepted_images_pinned _ [("postgres", none)] _ (by decide +kernel)

/-- A second stage from a mutable tag and an image with a list marker pass the gate. -/
theorem accepted_image_mutable :
    runtimeImageContract
        [("services/api/Dockerfile", pinnedBase ++ "\nFROM alpine:latest".toList)] []
        ["\n  - image: nginx:latest".toList] = .ok () ∧
      ¬ ImagesPinned [("services/api/Dockerfile", pinnedBase ++ "\nFROM alpine:latest".toList)]
        ["\n  - image: nginx:latest".toList] := by
  refine ⟨by decide +kernel, ?_⟩
  rintro ⟨hbases, -⟩
  have halpine : IsPinned "alpine:latest".toList :=
    hbases _ List.mem_cons_self _ (by decide +kernel)
  exact absurd ((digestSearch_iff (by decide)).mpr halpine) (by decide)

end FleetPulse
