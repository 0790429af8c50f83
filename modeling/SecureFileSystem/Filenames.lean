import SecureFileSystem.Stripping
import SecureFileSystem.TextCodec

/-!
`services/filenames.py`: the stored display name of a file, and the header that
gives it to a browser. Every part of a name is made safe once; the ASCII
fallback is made from the stored name by a decomposition that runs after that.
-/

namespace SecureFileSystem.Filenames

open Base Uuid Stripping TextCodec

inductive Category where
  | Lu | Ll | Lt | Lm | Lo | Mn | Mc | Me | Nd | Nl | No | Pc | Pd | Ps | Pe | Pi | Pf | Po
  | Sm | Sc | Sk | So | Zs | Zl | Zp | Cc | Cf | Cs | Co | Cn
  deriving DecidableEq

def maxFilenameBytes : Nat := 255
def fallbackFilename : Text := ['f', 'i', 'l', 'e']

/-- `text.rsplit("/", 1)[-1]` -/
def lastComponent (text : Text) : Text := (text.reverse.takeWhile (· ≠ '/')).reverse

def replaceBackslash (text : Text) : Text :=
  text.map fun character => if character = '\\' then '/' else character

/-- `unicodedata.category(ch) not in ("Cc", "Cf")` -/
def visible (category : Char → Category) (character : Char) : Bool :=
  category character ∉ [.Cc, .Cf]

def sanitizeFilename (unicode : Unicode) (category : Char → Category) (raw : Option Text) : Text :=
  let name := lastComponent (replaceBackslash (raw.getD []))
  let name := strip unicode.isSpace (name.filter (visible category))
  let name := decodeIgnore ((utf8 name).take maxFilenameBytes)
  if name = [] ∨ name = ['.'] ∨ name = ['.', '.'] then fallbackFilename else name

/-- `text.encode("ascii", "ignore").decode()` -/
def asciiOnly (text : Text) : Text := text.filter fun character => character.toNat < 128

def quotable (character : Char) : Char :=
  if character ∈ ['"', '\\'] ∨ character.toNat < 0x20 ∨ character.toNat = 0x7F then '_'
  else character

/-- The last value of `ascii_name`. -/
def asciiName (unicode : Unicode) (normalize : Text → Text) (filename : Text) : Text :=
  let stripped := strip unicode.isSpace ((asciiOnly (normalize filename)).map quotable)
  if stripped = [] then fallbackFilename else stripped

def attachment (fallback encoded : Text) : Text :=
  "attachment; filename=\"".toList ++ fallback ++ "\"; filename*=UTF-8''".toList ++ encoded

def contentDisposition (unicode : Unicode) (normalize : Text → Text) (filename : Text) : Text :=
  attachment (asciiName unicode normalize filename) (quote filename)

def mimeCharacter (character : Char) : Bool :=
  character.isAlphanum || character ∈ "!#$&^_.+-".toList

def mimePart (text : Text) : Bool :=
  decide (1 ≤ text.length ∧ text.length ≤ 63) && text.all mimeCharacter

/-- `_MIME_TOKEN.fullmatch(text)`; neither class has a slash. -/
def mimeToken (text : Text) : Bool :=
  match text.splitOn '/' with
  | [kind, subtype] => mimePart kind && mimePart subtype
  | _ => false

def defaultContentType : Text := "application/octet-stream".toList

def sanitizeContentType (unicode : Unicode) (raw : Option Text) : Text :=
  let candidate :=
    unicode.lower (strip unicode.isSpace ((raw.getD []).takeWhile (· ≠ ';')))
  if mimeToken candidate then candidate else defaultContentType

/-! ### The sanitized name -/

theorem lastComponent_split (text : Text) :
    ∃ before, text = before ++ lastComponent text ∧ '/' ∉ lastComponent text ∧
      (before = [] ∨ ∃ front, before = front ++ ['/']) := by
  refine ⟨(text.reverse.dropWhile (· ≠ '/')).reverse, ?_, ?_, ?_⟩
  · rw [lastComponent, ← List.reverse_append, List.takeWhile_append_dropWhile, List.reverse_reverse]
  · intro member
    have kept := List.mem_takeWhile_imp (List.mem_reverse.mp member)
    simp at kept
  · cases left : text.reverse.dropWhile (· ≠ '/') with
    | nil => exact Or.inl rfl
    | cons first rest =>
        have stopped := List.head_dropWhile_not (fun symbol => decide (symbol ≠ '/'))
          (l := text.reverse) (by rw [left]; exact List.cons_ne_nil _ _)
        simp only [left, List.head_cons] at stopped
        right
        refine ⟨rest.reverse, ?_⟩
        rw [List.reverse_cons, show first = '/' by simpa using stopped]

/-- The text behind the last separator, where either slash separates. -/
theorem component_split (input : Text) :
    ∃ before after, input = before ++ after ∧
      lastComponent (replaceBackslash input) = after ∧ '/' ∉ after ∧ '\\' ∉ after ∧
      (before = [] ∨ ∃ front separator, before = front ++ [separator] ∧
        (separator = '/' ∨ separator = '\\')) := by
  obtain ⟨before, split, clean, ends⟩ := lastComponent_split (replaceBackslash input)
  obtain ⟨left, right, rfl, front, back⟩ := List.map_eq_append_iff.mp split
  have plain : ∀ character ∈ right, character ≠ '/' ∧ character ≠ '\\' := by
    intro character member
    have mapped := List.mem_map_of_mem (f := fun character : Char =>
      if character = '\\' then '/' else character) member
    rw [back] at mapped
    constructor
    · rintro rfl
      exact clean (by simpa using mapped)
    · rintro rfl
      exact clean (by simpa using mapped)
  refine ⟨left, right, rfl, ?_, fun member => (plain _ member).1 rfl,
    fun member => (plain _ member).2 rfl, ?_⟩
  · rw [← back]
    conv_rhs => rw [← List.map_id right]
    apply List.map_congr_left
    intro character member
    simp [(plain character member).2]
  · rcases ends with rfl | ⟨earlier, rfl⟩
    · left
      simpa using front
    · right
      obtain ⟨start, last, rfl, -, final⟩ := List.map_eq_append_iff.mp front
      obtain ⟨separator, rfl, slash⟩ := List.map_eq_singleton_iff.mp final
      refine ⟨start, separator, rfl, ?_⟩
      by_cases backslash : separator = '\\'
      · exact Or.inr backslash
      · rw [if_neg backslash] at slash
        exact Or.inl slash

/-- A name that leads nowhere but to one entry of the current directory. -/
def Basename (name : Text) : Prop :=
  '/' ∉ name ∧ '\\' ∉ name ∧ name ≠ [] ∧ name ≠ ['.'] ∧ name ≠ ['.', '.']

instance (name : Text) : Decidable (Basename name) :=
  inferInstanceAs (Decidable (_ ∧ _))

def LongestWithin (limit : Nat) (text name : Text) : Prop :=
  name <+: text ∧ (utf8 name).length ≤ limit ∧
    ∀ other, other <+: text → (utf8 other).length ≤ limit → other <+: name

structure SafeName (unicode : Unicode) (category : Char → Category) (raw : Option Text)
    (name : Text) : Prop where
  basename : Basename name
  bounded : (utf8 name).length ≤ maxFilenameBytes
  shown : ∀ character ∈ name, category character ≠ .Cc ∧ category character ≠ .Cf
  source : name = fallbackFilename ∨ ∃ before after, raw.getD [] = before ++ after ∧
    '/' ∉ after ∧ '\\' ∉ after ∧
    (before = [] ∨ ∃ front separator, before = front ++ [separator] ∧
      (separator = '/' ∨ separator = '\\')) ∧
    LongestWithin maxFilenameBytes (strip unicode.isSpace (after.filter (visible category))) name

theorem visible_iff {category : Char → Category} {character : Char} :
    visible category character = true ↔
      category character ≠ .Cc ∧ category character ≠ .Cf := by
  simp [visible]

/-- What `sanitize_filename` cuts to its length. -/
def cleaned (unicode : Unicode) (category : Char → Category) (raw : Option Text) : Text :=
  strip unicode.isSpace ((lastComponent (replaceBackslash (raw.getD []))).filter (visible category))

theorem sanitized_cut (unicode : Unicode) (category : Char → Category) (raw : Option Text) :
    ∃ name, LongestWithin maxFilenameBytes (cleaned unicode category raw) name ∧
      sanitizeFilename unicode category raw =
        if name = [] ∨ name = ['.'] ∨ name = ['.', '.'] then fallbackFilename else name :=
  ⟨_, decodeIgnore_take (cleaned unicode category raw) maxFilenameBytes, rfl⟩

theorem cleaned_member {unicode : Unicode} {category : Char → Category} {raw : Option Text}
    {character : Char} (member : character ∈ cleaned unicode category raw) :
    character ≠ '/' ∧ character ≠ '\\' ∧ visible category character = true := by
  obtain ⟨before, after, -, last, slash, backslash, -⟩ := component_split (raw.getD [])
  have inside := (strip_sublist unicode.isSpace _).subset member
  rw [last] at inside
  obtain ⟨kept, shown⟩ := List.mem_filter.mp inside
  refine ⟨?_, ?_, shown⟩
  · rintro rfl
    exact slash kept
  · rintro rfl
    exact backslash kept

section Sanitized
variable (unicode : Unicode) (category : Char → Category)
  (letters : ∀ character ∈ fallbackFilename, visible category character = true) (raw : Option Text)

theorem sanitized_basename : Basename (sanitizeFilename unicode category raw) := by
  obtain ⟨name, ⟨within, -, -⟩, value⟩ := sanitized_cut unicode category raw
  rw [value]
  split
  · decide
  · rename_i ordinary
    simp only [not_or] at ordinary
    exact ⟨fun member => (cleaned_member (within.subset member)).1 rfl,
      fun member => (cleaned_member (within.subset member)).2.1 rfl, ordinary⟩

theorem sanitized_bounded :
    (utf8 (sanitizeFilename unicode category raw)).length ≤ maxFilenameBytes := by
  obtain ⟨name, ⟨-, fits, -⟩, value⟩ := sanitized_cut unicode category raw
  rw [value]
  split
  · decide
  · exact fits

include letters in
theorem sanitized_shown : ∀ character ∈ sanitizeFilename unicode category raw,
    visible category character = true := by
  obtain ⟨name, ⟨within, -, -⟩, value⟩ := sanitized_cut unicode category raw
  intro character member
  rw [value] at member
  split at member
  · exact letters character member
  · exact (cleaned_member (within.subset member)).2.2

end Sanitized

/-- Whatever a client sends, the stored name is safe and bounded. -/
theorem sanitizeFilename_safe (unicode : Unicode) (category : Char → Category)
    (letters : ∀ character ∈ fallbackFilename, visible category character = true)
    (raw : Option Text) :
    SafeName unicode category raw (sanitizeFilename unicode category raw) := by
  constructor
  case basename => exact sanitized_basename unicode category raw
  case bounded => exact sanitized_bounded unicode category raw
  case shown =>
    intro character member
    exact visible_iff.mp (sanitized_shown unicode category letters raw character member)
  case source =>
    obtain ⟨before, after, input, last, slash, backslash, ends⟩ := component_split (raw.getD [])
    obtain ⟨name, cut, value⟩ := sanitized_cut unicode category raw
    rw [value]
    split
    · exact Or.inl rfl
    · unfold cleaned at cut
      rw [last] at cut
      exact Or.inr ⟨before, after, input, slash, backslash, ends, cut⟩

/-- A path with a control character, and more than 255 bytes behind the last slash. -/
def smallRaw : Text := ['a', '/', 'b', '\\', '.', '.', '\n'] ++ List.replicate 300 'x'

theorem sanitizeFilename_safe_small :
    SafeName plain.unicode (fun character => if character = '\n' then .Cc else .Ll) (some smallRaw)
      (sanitizeFilename plain.unicode (fun character => if character = '\n' then .Cc else .Ll)
        (some smallRaw)) :=
  sanitizeFilename_safe plain.unicode (fun character => if character = '\n' then .Cc else .Ll)
    (by simp [fallbackFilename, visible]) (some smallRaw)

/-! ### Sanitizing again -/

/-- A name that sanitizing leaves as it is, without whitespace at its ends. -/
structure Normal (unicode : Unicode) (category : Char → Category) (name : Text) : Prop where
  first : ∀ character ∈ name.head?, unicode.isSpace character = false
  last : ∀ character ∈ name.getLast?, unicode.isSpace character = false
  again : sanitizeFilename unicode category (some name) = name

/-- Where the text is too long, the last character that fits is no whitespace. -/
def CutClean (unicode : Unicode) (text : Text) : Prop :=
  ∀ kept next rest, text = kept ++ next :: rest → (utf8 kept).length ≤ maxFilenameBytes →
    maxFilenameBytes < (utf8 (kept ++ [next])).length →
      ∀ last ∈ kept.getLast?, unicode.isSpace last = false

theorem utf8_append (front back : Text) : utf8 (front ++ back) = utf8 front ++ utf8 back :=
  List.flatMap_append

theorem utf8_single (character : Char) : (utf8 [character]).length ≤ 4 := by
  have size := String.length_utf8EncodeChar character
  simp only [utf8, List.flatMap_cons, List.flatMap_nil, List.append_nil, size]
  exact Char.utf8Size_le_four character

theorem decodeIgnore_fits {text : Text} {limit : Nat} (fits : (utf8 text).length ≤ limit) :
    decodeIgnore ((utf8 text).take limit) = text := by
  obtain ⟨within, -, longest⟩ := decodeIgnore_take text limit
  exact within.eq_of_length_le (longest text List.prefix_rfl fits).length_le

theorem lastComponent_kept {text : Text} (slash : '/' ∉ text) (backslash : '\\' ∉ text) :
    lastComponent (replaceBackslash text) = text := by
  have same : replaceBackslash text = text := by
    unfold replaceBackslash
    conv_rhs => rw [← List.map_id text]
    apply List.map_congr_left
    intro character member
    have other : character ≠ '\\' := by
      rintro rfl
      exact backslash member
    exact if_neg other
  rw [same, lastComponent, List.takeWhile_eq_self_iff.mpr, List.reverse_reverse]
  intro character member
  have other : character ≠ '/' := by
    rintro rfl
    exact slash (List.mem_reverse.mp member)
  simpa using other

/-- A name that needs no cleaning is its own sanitized name. -/
theorem normal_of {unicode : Unicode} {category : Char → Category} {name : Text}
    (basename : Basename name) (bounded : (utf8 name).length ≤ maxFilenameBytes)
    (shown : ∀ character ∈ name, visible category character = true)
    (first : ∀ character ∈ name.head?, unicode.isSpace character = false)
    (last : ∀ character ∈ name.getLast?, unicode.isSpace character = false) :
    Normal unicode category name := by
  refine ⟨first, last, ?_⟩
  obtain ⟨slash, backslash, ordinary⟩ := basename
  unfold sanitizeFilename
  dsimp only [Option.getD_some]
  rw [lastComponent_kept slash backslash, List.filter_eq_self.mpr shown,
    strip_kept unicode.isSpace name first last, decodeIgnore_fits bounded, if_neg]
  simpa [not_or] using ordinary

/-- Where a text is too long, the longest prefix that fits ends before the next character. -/
theorem longest_cut {limit : Nat} {kept rest name : Text} {next : Char}
    (cut : LongestWithin limit (kept ++ next :: rest) name) (short : (utf8 kept).length ≤ limit)
    (over_limit : limit < (utf8 (kept ++ [next])).length) : name = kept := by
  obtain ⟨within, fits, longest⟩ := cut
  have grown : kept <+: name := longest kept (List.prefix_append _ _) short
  by_contra other
  obtain ⟨more, rfl⟩ := grown
  obtain ⟨character, later, rfl⟩ := List.exists_cons_of_ne_nil (fun none : more = [] =>
    other (by rw [none, List.append_nil]))
  have tail := (List.prefix_append_right_inj kept).mp within
  obtain ⟨rfl, -⟩ := List.cons_prefix_cons.mp tail
  have bytes : (utf8 (kept ++ [character])).length ≤ (utf8 (kept ++ character :: later)).length := by
    rw [← List.singleton_append (l := later), ← List.append_assoc, utf8_append _ later,
      List.length_append]
    exact Nat.le_add_right _ _
  omega

theorem cut_ordinary {name : Text} {next : Char}
    (over_limit : maxFilenameBytes < (utf8 (name ++ [next])).length) :
    ¬ (name = [] ∨ name = ['.'] ∨ name = ['.', '.']) := by
  have size := utf8_single next
  rw [utf8_append, List.length_append] at over_limit
  unfold maxFilenameBytes at over_limit
  rintro (rfl | rfl | rfl)
  · change 255 < 0 + (utf8 [next]).length at over_limit
    omega
  · change 255 < 1 + (utf8 [next]).length at over_limit
    omega
  · change 255 < 2 + (utf8 [next]).length at over_limit
    omega

theorem normal_clean {unicode : Unicode} {category : Char → Category} {raw : Option Text}
    (normal : Normal unicode category (sanitizeFilename unicode category raw)) :
    CutClean unicode (cleaned unicode category raw) := by
  intro kept next rest split short over_limit last ends
  obtain ⟨name, cut, value⟩ := sanitized_cut unicode category raw
  rw [split] at cut
  obtain rfl := longest_cut cut short over_limit
  rw [value, if_neg (cut_ordinary over_limit)] at normal
  exact normal.last last ends

theorem cut_last {unicode : Unicode} {raw name : Text}
    (clean : CutClean unicode (strip unicode.isSpace raw))
    (cut : LongestWithin maxFilenameBytes (strip unicode.isSpace raw) name) :
    ∀ character ∈ name.getLast?, unicode.isSpace character = false := by
  obtain ⟨⟨after, split⟩, fits, longest⟩ := cut
  cases after with
  | nil =>
      rw [List.append_nil] at split
      rw [split]
      exact strip_last unicode.isSpace _
  | cons next rest =>
      apply clean name next rest split.symm fits
      by_contra room
      have grown := longest (name ++ [next])
        ⟨rest, by rw [List.append_assoc, List.singleton_append, split]⟩ (Nat.not_lt.mp room)
      have longer := grown.length_le
      rw [List.length_append, List.length_singleton] at longer
      omega

/-- Sanitizing leaves no whitespace at the ends, and sanitizing again changes nothing,
exactly where the cut leaves no whitespace at the end. -/
theorem sanitizeFilename_normal (unicode : Unicode) (category : Char → Category)
    (letters : ∀ character ∈ fallbackFilename,
      visible category character = true ∧ unicode.isSpace character = false)
    (raw : Option Text) :
    Normal unicode category (sanitizeFilename unicode category raw) ↔
      CutClean unicode (cleaned unicode category raw) := by
  refine ⟨normal_clean, fun clean => ?_⟩
  refine normal_of (sanitized_basename unicode category raw) (sanitized_bounded unicode category raw)
    (sanitized_shown unicode category (fun character member => (letters character member).1) raw)
    ?_ ?_
  · obtain ⟨name, cut, value⟩ := sanitized_cut unicode category raw
    rw [value]
    split
    · exact fun character first => (letters character (List.mem_of_mem_head? first)).2
    · intro character first
      obtain ⟨after, split⟩ := cut.1
      apply strip_first unicode.isSpace _ character
      change character ∈ (cleaned unicode category raw).head?
      rw [← split, List.head?_append, first]
      rfl
  · obtain ⟨name, cut, value⟩ := sanitized_cut unicode category raw
    rw [value]
    split
    · exact fun character last => (letters character (List.mem_of_mem_getLast? last)).2
    · exact cut_last clean cut

def plainCategory (_ : Char) : Category := .Ll

theorem plain_letters : ∀ character ∈ fallbackFilename,
    visible plainCategory character = true ∧ plain.unicode.isSpace character = false := by
  simp [fallbackFilename, visible, plainCategory, plain]

/-- The last letters that fit are followed by one of two bytes. -/
def cutRaw : Text := ' ' :: List.replicate 254 'a' ++ ['\u00e9', ' ', 'b']

theorem sanitizeFilename_normal_small :
    sanitizeFilename plain.unicode plainCategory (some cutRaw) = List.replicate 254 'a' ∧
    Normal plain.unicode plainCategory (List.replicate 254 'a') := by
  have value : sanitizeFilename plain.unicode plainCategory (some cutRaw) =
      List.replicate 254 'a' := by decide +kernel
  refine ⟨value, value ▸ (sanitizeFilename_normal plain.unicode plainCategory plain_letters
    (some cutRaw)).mpr ?_⟩
  intro kept next rest split short over_limit last ends
  have whole : cleaned plain.unicode plainCategory (some cutRaw) =
      List.replicate 254 'a' ++ '\u00e9' :: [' ', 'b'] := by decide +kernel
  have fits := decodeIgnore_take (cleaned plain.unicode plainCategory (some cutRaw)) maxFilenameBytes
  rw [split] at fits
  have same := longest_cut fits short over_limit
  rw [← split, whole] at same
  have letters : kept = List.replicate 254 'a' := same.symm.trans (by decide +kernel)
  rw [letters] at ends
  have letter := List.eq_of_mem_replicate (List.mem_of_mem_getLast? ends)
  rw [letter]
  decide

def longRaw : Text := List.replicate 254 'a' ++ [' ', 'b']

/-- The cut leaves the space at the end of the name. -/
theorem sanitizeFilename_abnormal :
    ¬ ∀ raw, Normal plain.unicode plainCategory (sanitizeFilename plain.unicode plainCategory raw) := by
  intro normal
  have clean := normal_clean (normal (some longRaw))
  have whole : cleaned plain.unicode plainCategory (some longRaw) =
      (List.replicate 254 'a' ++ [' ']) ++ 'b' :: [] := by decide +kernel
  have space := clean _ 'b' [] whole (by decide +kernel) (by decide +kernel) ' ' (by decide +kernel)
  exact absurd space (by decide)

/-! ### The header -/

/-- What is quoted as the fallback name of the header. -/
structure QuotedString (fallback : Text) : Prop where
  nonempty : fallback ≠ []
  quotes : '"' ∉ fallback
  backslashes : '\\' ∉ fallback
  shown : ∀ character ∈ fallback, Printable character

theorem printable_of_all {text : Text}
    (all : (text.all fun character => 0x20 ≤ character.toNat && character.toNat ≤ 0x7E) = true) :
    ∀ character ∈ text, Printable character := by
  intro character member
  simpa [Printable] using List.all_eq_true.mp all character member

theorem quotable_facts {character : Char} (ascii : character.toNat < 128) :
    quotable character ≠ '"' ∧ quotable character ≠ '\\' ∧ Printable (quotable character) := by
  unfold quotable
  split
  · exact ⟨by decide, by decide, by decide, by decide⟩
  · rename_i kept
    simp only [List.mem_cons, List.not_mem_nil, or_false, not_or, Nat.not_lt] at kept
    exact ⟨kept.1.1, kept.1.2, kept.2.1, by omega⟩

theorem asciiName_quoted (unicode : Unicode) (normalize : Text → Text) (filename : Text) :
    QuotedString (asciiName unicode normalize filename) := by
  unfold asciiName
  dsimp only
  split
  · exact ⟨by decide, by decide, by decide, printable_of_all (by decide)⟩
  · rename_i nonempty
    have facts : ∀ character ∈ strip unicode.isSpace
        ((asciiOnly (normalize filename)).map quotable),
        character ≠ '"' ∧ character ≠ '\\' ∧ Printable character := by
      intro character member
      obtain ⟨original, inside, rfl⟩ :=
        List.mem_map.mp ((strip_sublist unicode.isSpace _).subset member)
      exact quotable_facts (by simpa using (List.mem_filter.mp inside).2)
    exact ⟨nonempty, fun member => (facts _ member).1 rfl, fun member => (facts _ member).2.1 rfl,
      fun character member => (facts character member).2.2⟩

theorem attachment_member {fallback encoded : Text} {character : Char}
    (member : character ∈ attachment fallback encoded) :
    Printable character ∨ character ∈ fallback ∨ character ∈ encoded := by
  rcases List.mem_append.mp member with front | inside
  · rcases List.mem_append.mp front with front | middle
    · rcases List.mem_append.mp front with opening | inside
      · exact Or.inl (printable_of_all (by decide) character opening)
      · exact Or.inr (Or.inl inside)
    · exact Or.inl (printable_of_all (by decide) character middle)
  · exact Or.inr (Or.inr inside)

theorem attachment_injective {fallback encoded other rest : Text} (one : '"' ∉ fallback)
    (two : '"' ∉ other) (same : attachment fallback encoded = attachment other rest) :
    fallback = other ∧ encoded = rest := by
  unfold attachment at same
  simp only [List.append_assoc] at same
  have tail := List.append_cancel_left same
  have cons : "\"; filename*=UTF-8''".toList = '"' :: "; filename*=UTF-8''".toList := by decide
  rw [cons, List.cons_append, List.cons_append] at tail
  obtain ⟨names, ends⟩ := separated one two tail
  exact ⟨names, List.append_cancel_left ends⟩

/-- The header has one reading, which gives the name back, and holds printable ASCII only. -/
theorem contentDisposition_lossless (unicode : Unicode) (normalize : Text → Text) (filename : Text) :
    (∀ character ∈ contentDisposition unicode normalize filename, Printable character) ∧
    ∃ fallback encoded, contentDisposition unicode normalize filename = attachment fallback encoded ∧
      fallback ≠ [] ∧ '"' ∉ fallback ∧ '\\' ∉ fallback ∧ Quoted encoded ∧
      (percentDecode encoded).bind decodeUtf8 = some filename ∧
      ∀ other rest, '"' ∉ other →
        contentDisposition unicode normalize filename = attachment other rest →
          other = fallback ∧ rest = encoded := by
  have name := asciiName_quoted unicode normalize filename
  have quoted : Quoted (quote filename) := flatMap_quoted _
  constructor
  · intro character member
    rcases attachment_member member with opening | fallback | encoded
    · exact opening
    · exact name.shown character fallback
    · exact quoted_printable quoted character encoded
  · refine ⟨_, _, rfl, name.nonempty, name.quotes, name.backslashes, quoted, decode_quote filename,
      fun other rest clean same => ?_⟩
    exact (attachment_injective clean name.quotes same.symm)

/-! ### The decomposition -/

/-- The tables of the normal form: the full compatibility decomposition of each
character, and its canonical combining class. -/
structure Decomposition where
  full : Char → Text
  combining : Char → Nat

def insertMark (combining : Char → Nat) (mark : Char) : Text → Text
  | [] => [mark]
  | next :: rest =>
      if 0 < combining next ∧ combining next < combining mark then
        next :: insertMark combining mark rest
      else mark :: next :: rest

def canonicalOrder (combining : Char → Nat) (text : Text) : Text :=
  text.foldr (insertMark combining) []

def Decomposition.nfkd (table : Decomposition) (text : Text) : Text :=
  canonicalOrder table.combining (text.flatMap table.full)

def Decomposition.letters (table : Decomposition) (name : Text) : Text :=
  name.flatMap fun character => asciiOnly (table.full character)

/-- A name that decomposes to one or two full stops, between spaces. -/
def Decomposition.Dotted (table : Decomposition) (name : Text) : Prop :=
  ∃ front dots back, dots ∈ [['.'], ['.', '.']] ∧
    table.letters name = List.replicate front ' ' ++ dots ++ List.replicate back ' '

section Reordering

variable {combining : Char → Nat} (starters : ∀ character, character.toNat < 128 → combining character = 0)

include starters in
/-- Only marks change places, so the ASCII characters keep their order. -/
theorem asciiOnly_insertMark (mark : Char) (text : Text) :
    asciiOnly (insertMark combining mark text) = asciiOnly (mark :: text) := by
  induction text with
  | nil => rfl
  | cons next rest continues =>
      unfold insertMark
      split
      · rename_i swapped
        have outside : ¬ next.toNat < 128 := by
          intro ascii
          rw [starters next ascii] at swapped
          exact absurd swapped.1 (Nat.lt_irrefl 0)
        simp only [asciiOnly] at continues ⊢
        rw [List.filter_cons_of_neg (by simpa using outside), continues]
        simp [List.filter_cons, outside]
      · rfl

include starters in
theorem asciiOnly_canonicalOrder (text : Text) :
    asciiOnly (canonicalOrder combining text) = asciiOnly text := by
  induction text with
  | nil => rfl
  | cons first rest continues =>
      calc asciiOnly (canonicalOrder combining (first :: rest))
        _ = asciiOnly (first :: canonicalOrder combining rest) :=
            asciiOnly_insertMark starters first _
        _ = asciiOnly [first] ++ asciiOnly (canonicalOrder combining rest) :=
            List.filter_append [first] _
        _ = asciiOnly [first] ++ asciiOnly rest := by rw [continues]
        _ = asciiOnly (first :: rest) := (List.filter_append [first] _).symm

end Reordering

theorem asciiOnly_nfkd {table : Decomposition}
    (starters : ∀ character, character.toNat < 128 → table.combining character = 0) (name : Text) :
    asciiOnly (table.nfkd name) = table.letters name := by
  rw [Decomposition.nfkd, asciiOnly_canonicalOrder starters]
  exact List.filter_flatMap ..

/-! ### The fallback as a name -/

/-- Nothing but the replacement itself is made by replacing. -/
theorem map_quotable {text result : Text} (clean : '_' ∉ result)
    (same : text.map quotable = result) : text = result := by
  rw [← same] at clean ⊢
  conv_lhs => rw [← List.map_id text]
  apply List.map_congr_left
  intro character member
  have stays : quotable character ≠ '_' := fun replaced =>
    clean (replaced ▸ List.mem_map_of_mem member)
  unfold quotable at stays ⊢
  split
  · rename_i special
    rw [if_pos special] at stays
    exact absurd rfl stays
  · rfl

section Fallback

variable {unicode : Unicode} {text : Text}
  (spaces : ∀ character, Printable character → (unicode.isSpace character = true ↔ character = ' '))
  (ascii : ∀ character ∈ text, character.toNat < 128)

include ascii in
theorem quotable_printable : ∀ character ∈ text.map quotable, Printable character := by
  intro character member
  obtain ⟨original, inside, rfl⟩ := List.mem_map.mp member
  exact (quotable_facts (ascii original inside)).2.2

include spaces in
theorem slash_kept : unicode.isSpace '/' = false := by
  have slash := spaces '/' ⟨by decide, by decide⟩
  cases space : unicode.isSpace '/' with
  | false => rfl
  | true => exact absurd (slash.mp space) (by decide)

include spaces in
theorem stop_kept : unicode.isSpace '.' = false := by
  have stop := spaces '.' ⟨by decide, by decide⟩
  cases space : unicode.isSpace '.' with
  | false => rfl
  | true => exact absurd (stop.mp space) (by decide)

include spaces in
theorem slash_shown : '/' ∈ strip unicode.isSpace (text.map quotable) ↔ '/' ∈ text := by
  constructor
  · intro member
    obtain ⟨original, inside, same⟩ := List.mem_map.mp ((strip_sublist unicode.isSpace _).subset member)
    unfold quotable at same
    split at same
    · exact absurd same (by decide)
    · exact same ▸ inside
  · intro member
    exact mem_strip (List.mem_map.mpr ⟨'/', member, by decide⟩) (slash_kept spaces)

include spaces ascii in
theorem dots_shown {dots : Text} (few : dots ∈ [['.'], ['.', '.']]) :
    strip unicode.isSpace (text.map quotable) = dots ↔
      ∃ front back, text = List.replicate front ' ' ++ dots ++ List.replicate back ' ' := by
  have stops : ∀ character ∈ dots, character = '.' := by
    rcases List.mem_cons.mp few with rfl | few
    · simp
    · rw [List.mem_singleton.mp few]
      simp
  have nonempty : dots ≠ [] := by
    rintro rfl
    simp at few
  constructor
  · intro same
    obtain ⟨front, back, split, before, after⟩ := strip_split unicode.isSpace (text.map quotable)
    have printable := quotable_printable ascii
    rw [same] at split
    rw [split] at printable
    have early : front = List.replicate front.length ' ' := List.eq_replicate_of_mem
      fun character member => (spaces character (printable character (by simp [member]))).mp
        (before character member)
    have late : back = List.replicate back.length ' ' := List.eq_replicate_of_mem
      fun character member => (spaces character (printable character (by simp [member]))).mp
        (after character member)
    refine ⟨front.length, back.length, ?_⟩
    rw [← early, ← late]
    refine map_quotable ?_ split
    intro member
    rcases List.mem_append.mp member with inside | inside
    · rcases List.mem_append.mp inside with inside | inside
      · rw [early] at inside
        exact absurd (List.eq_of_mem_replicate inside) (by decide)
      · exact absurd (stops _ inside) (by decide)
    · rw [late] at inside
      exact absurd (List.eq_of_mem_replicate inside) (by decide)
  · rintro ⟨front, back, rfl⟩
    have blank : unicode.isSpace ' ' = true := (spaces ' ' ⟨by decide, by decide⟩).mpr rfl
    have stays : ∀ character ∈ dots, quotable character = character := by
      intro character member
      rw [stops character member]
      decide
    rw [List.map_append, List.map_append, List.map_replicate, List.map_replicate,
      show quotable ' ' = ' ' by decide, List.map_congr_left stays, List.map_id']
    refine strip_between ?_ ?_ ?_ nonempty
    · exact fun character member => List.eq_of_mem_replicate member ▸ blank
    · exact fun character member => List.eq_of_mem_replicate member ▸ blank
    · exact fun character member => stops character member ▸ stop_kept spaces

end Fallback

/-- The fallback is a basename as well, unless the name decomposes to a slash or to dots. -/
theorem contentDisposition_basename (unicode : Unicode) (category : Char → Category)
    (table : Decomposition) (letters : ∀ character ∈ fallbackFilename, visible category character = true)
    (spaces : ∀ character, Printable character → (unicode.isSpace character = true ↔ character = ' '))
    (starters : ∀ character, character.toNat < 128 → table.combining character = 0)
    (raw : Option Text) :
    Basename (sanitizeFilename unicode category raw) ∧
    ∃ fallback, contentDisposition unicode table.nfkd (sanitizeFilename unicode category raw) =
        attachment fallback (quote (sanitizeFilename unicode category raw)) ∧
      (Basename fallback ↔
        (∀ character ∈ sanitizeFilename unicode category raw, '/' ∉ table.full character) ∧
        ¬ table.Dotted (sanitizeFilename unicode category raw)) := by
  refine ⟨(sanitizeFilename_safe unicode category letters raw).basename, _, rfl, ?_⟩
  generalize sanitizeFilename unicode category raw = name
  have quoted := asciiName_quoted unicode table.nfkd name
  have ascii : ∀ character ∈ table.letters name, character.toNat < 128 := by
    intro character member
    obtain ⟨source, -, inside⟩ := List.mem_flatMap.mp member
    simpa using (List.mem_filter.mp inside).2
  -- Nothing but the decomposition brings a slash into the fallback.
  have slashes : '/' ∈ strip unicode.isSpace ((table.letters name).map quotable) ↔
      ∃ character ∈ name, '/' ∈ table.full character := by
    rw [slash_shown spaces]
    simp [Decomposition.letters, asciiOnly]
  -- The fallback is `.` or `..` only if all else of it was stripped.
  have dotted : strip unicode.isSpace ((table.letters name).map quotable) ∈ [['.'], ['.', '.']] ↔
      table.Dotted name := by
    constructor
    · intro few
      obtain ⟨front, back, same⟩ := (dots_shown spaces ascii few).mp rfl
      exact ⟨front, _, back, few, same⟩
    · rintro ⟨front, dots, back, few, same⟩
      rw [(dots_shown spaces ascii few).mpr ⟨front, back, same⟩]
      exact few
  unfold asciiName at quoted ⊢
  rw [asciiOnly_nfkd starters] at quoted ⊢
  dsimp only at quoted ⊢
  generalize strip unicode.isSpace ((table.letters name).map quotable) = shown
    at quoted slashes dotted ⊢
  split
  -- Nothing is left, and the constant name stands in.
  · rename_i empty
    subst empty
    have free : ¬ ∃ character ∈ name, '/' ∈ table.full character :=
      fun found => absurd (slashes.mpr found) List.not_mem_nil
    have plainly : ¬ table.Dotted name := fun found => absurd (dotted.mpr found) (by decide)
    constructor
    · intro _
      exact ⟨fun character member slash => free ⟨character, member, slash⟩, plainly⟩
    · intro _
      exact ⟨by decide, by decide, by decide, by decide, by decide⟩
  · rename_i nonempty
    rw [if_neg nonempty] at quoted
    constructor
    · rintro ⟨slash, -, -, one, two⟩
      constructor
      · exact fun character member inside => slash (slashes.mpr ⟨character, member, inside⟩)
      · intro found
        simp only [List.mem_cons, List.not_mem_nil, or_false] at dotted
        exact (dotted.mpr found).elim one two
    · rintro ⟨free, plainly⟩
      refine ⟨?_, quoted.backslashes, nonempty, ?_, ?_⟩
      · intro member
        obtain ⟨character, inside, slash⟩ := slashes.mp member
        exact free character inside slash
      · exact fun same => plainly (dotted.mp (by simp [same]))
      · exact fun same => plainly (dotted.mp (by simp [same]))

/-- The fullwidth solidus, which decomposes to a slash; no mark in sight. -/
def wideTable : Decomposition where
  full character := if character = '／' then ['/'] else [character]
  combining _ := 0

def lettersOnly (character : Char) : Category := if character = '／' then .Po else .Ll

theorem lettersOnly_visible :
    ∀ character ∈ fallbackFilename, visible lettersOnly character = true := by
  simp [fallbackFilename, visible, lettersOnly]

theorem plain_blank (character : Char) (printable : Printable character) :
    plain.unicode.isSpace character = true ↔ character = ' ' := by
  constructor
  · intro space
    simp only [plain, List.mem_cons, List.not_mem_nil, or_false, decide_eq_true_eq] at space
    rcases space with rfl | rfl | rfl | rfl | rfl | rfl
    · rfl
    all_goals exact absurd printable.1 (by decide)
  · rintro rfl
    rfl

theorem contentDisposition_basename_slash :
    ∃ fallback, contentDisposition plain.unicode wideTable.nfkd
        (sanitizeFilename plain.unicode lettersOnly (some ['／'])) =
        attachment fallback (quote (sanitizeFilename plain.unicode lettersOnly (some ['／']))) ∧
      (Basename fallback ↔
        (∀ character ∈ sanitizeFilename plain.unicode lettersOnly (some ['／']),
          '/' ∉ wideTable.full character) ∧
        ¬ wideTable.Dotted (sanitizeFilename plain.unicode lettersOnly (some ['／']))) :=
  (contentDisposition_basename plain.unicode lettersOnly wideTable lettersOnly_visible plain_blank
    (fun _ _ => rfl) (some ['／'])).2

/-- `／` is a good name, and `/` its fallback. -/
theorem contentDisposition_slash :
    Basename (sanitizeFilename plain.unicode lettersOnly (some ['／'])) ∧
    contentDisposition plain.unicode wideTable.nfkd
        (sanitizeFilename plain.unicode lettersOnly (some ['／'])) =
      attachment ['/'] (quote ['／']) ∧
    ¬ Basename ['/'] := by
  decide +kernel

end SecureFileSystem.Filenames
