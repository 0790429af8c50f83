import SecureFileSystem.TextCodec

/-!
`application/x-www-form-urlencoded` as `urllib.parse` reads and writes it: what
`urlencode` prints, `parse_qsl` reads back.
-/

namespace SecureFileSystem.UrlForm

open TextCodec

def replacement : Char := Char.ofNat 0xFFFD

def continuation (byte : UInt8) : Bool := decide (0x80 ≤ byte ∧ byte ≤ 0xBF)

def goesOn (first second : UInt8) : Bool :=
  if first = 0xE0 then decide (0xA0 ≤ second ∧ second ≤ 0xBF)
  else if first = 0xED then decide (0x80 ≤ second ∧ second ≤ 0x9F)
  else if first = 0xF0 then decide (0x90 ≤ second ∧ second ≤ 0xBF)
  else if first = 0xF4 then decide (0x80 ≤ second ∧ second ≤ 0x8F)
  else decide (0xE1 ≤ first ∧ first ≤ 0xF3) && continuation second

/-- Where no character is encoded, the length of the longest start of one. -/
def subpart : List UInt8 → Nat
  | first :: second :: third :: _ =>
      if goesOn first second then
        if 0xF0 ≤ first ∧ continuation third = true then 3 else 2
      else 1
  | [first, second] => if goesOn first second then 2 else 1
  | _ => 1

/-- `bytes.decode(errors="replace")`, with `skip` bytes already accounted for. -/
def replaceFrom : Nat → List UInt8 → List Char
  | _, [] => []
  | skip + 1, _ :: rest => replaceFrom skip rest
  | 0, first :: rest =>
      match (first :: rest).toByteArray.utf8DecodeChar? 0 with
      | some character => character :: replaceFrom (character.utf8Size - 1) rest
      | none => replacement :: replaceFrom (subpart (first :: rest) - 1) rest

def decodeReplace (bytes : List UInt8) : List Char := replaceFrom 0 bytes

theorem replaceFrom_skip (front rest : List UInt8) :
    replaceFrom front.length (front ++ rest) = replaceFrom 0 rest := by
  induction front with
  | nil => rfl
  | cons first front ih => exact ih

theorem decodeReplace_utf8 (text : List Char) : decodeReplace (utf8 text) = text := by
  induction text with
  | nil => rfl
  | cons character rest ih =>
      obtain ⟨first, more, whole, size, decoded⟩ := encoded_begins character (utf8 rest)
      have bytes : utf8 (character :: rest) = String.utf8EncodeChar character ++ utf8 rest := rfl
      rw [bytes, whole, decodeReplace, replaceFrom, decoded]
      dsimp only
      rw [← size, replaceFrom_skip]
      exact congrArg _ ih

def ascii (character : Char) : Bool := decide (character.toNat < 128)

def hexValue (character : Char) : Option Nat :=
  if 'a' ≤ character ∧ character ≤ 'f' then some (character.toNat - 87)
  else hexUpperValue character

/-- `unquote_to_bytes` of an ASCII text: a `%` that begins no triplet stays. -/
def unquoteToBytes : List Char → List UInt8
  | '%' :: high :: low :: rest =>
      match hexValue high, hexValue low with
      | some left, some right => UInt8.ofNat (left * 16 + right) :: unquoteToBytes rest
      | _, _ => UInt8.ofNat '%'.toNat :: unquoteToBytes (high :: low :: rest)
  | first :: rest => UInt8.ofNat first.toNat :: unquoteToBytes rest
  | [] => []

/-- The maximal ASCII parts decoded, the characters between them kept. `part` is
the ASCII part that has been read so far. -/
def unquoteParts : List Char → List Char → List Char
  | part, [] => decodeReplace (unquoteToBytes part)
  | part, character :: rest =>
      if ascii character then unquoteParts (part ++ [character]) rest
      else decodeReplace (unquoteToBytes part) ++ character :: unquoteParts [] rest

def unquote (text : List Char) : List Char :=
  if '%' ∈ text then unquoteParts [] text else text

def unquotePlus (text : List Char) : List Char :=
  unquote (text.map fun character => if character = '+' then ' ' else character)

def quoteSpaced (text : List Char) : List Char :=
  (utf8 text).flatMap fun byte => if byte = 0x20 then [' '] else quoteByte byte

def quotePlus (text : List Char) : List Char :=
  if ' ' ∈ text then
    (quoteSpaced text).map fun character => if character = ' ' then '+' else character
  else quote text

/-- A field at its first `=`; without one, the value is empty. -/
def partition (field : List Char) : List Char × List Char :=
  (field.takeWhile (· ≠ '='), (field.dropWhile (· ≠ '=')).tail)

def parseField (field : List Char) : List Char × List Char :=
  (unquotePlus (partition field).1, unquotePlus (partition field).2)

/-- `parse_qsl(query, keep_blank_values=True)` -/
def parseQsl (query : List Char) : List (List Char × List Char) :=
  ((query.splitOn '&').filter (· ≠ [])).map parseField

def printField (pair : List Char × List Char) : List Char :=
  quotePlus pair.1 ++ '=' :: quotePlus pair.2

def urlencode (pairs : List (List Char × List Char)) : List Char :=
  ['&'].intercalate (pairs.map printField)

structure Free (character : Char) : Prop where
  ascii : character.toNat < 128
  percent : character ≠ '%'
  plus : character ≠ '+'
  ampersand : character ≠ '&'
  equals : character ≠ '='

/-- The text spells these bytes, in free characters and `%XX` triplets. -/
inductive Spells : List Char → List UInt8 → Prop
  | nil : Spells [] []
  | plain {character : Char} {rest : List Char} {bytes : List UInt8} (free : Free character)
      (more : Spells rest bytes) :
      Spells (character :: rest) (UInt8.ofNat character.toNat :: bytes)
  | triplet {high low : Char} {left right : Nat} {rest : List Char} {bytes : List UInt8}
      (first : hexUpperValue high = some left) (second : hexUpperValue low = some right)
      (more : Spells rest bytes) :
      Spells ('%' :: high :: low :: rest) (UInt8.ofNat (left * 16 + right) :: bytes)

theorem free_space : Free ' ' := by constructor <;> decide

theorem free_unreserved {character : Char} (unreserved : unreserved character = true) :
    Free character := by
  have printable := unreserved_printable unreserved
  constructor
  · exact Nat.lt_succ_of_le (printable.2.trans (by decide))
  all_goals
    rintro rfl
    revert unreserved
    decide

theorem free_hex {character : Char} {value : Nat} (digit : hexUpperValue character = some value) :
    Free character := by
  have printable := hexUpper_printable (by rw [digit]; rfl)
  constructor
  · exact Nat.lt_succ_of_le (printable.2.trans (by decide))
  all_goals
    rintro rfl
    cases digit

theorem hexValue_upper {character : Char} {value : Nat}
    (digit : hexUpperValue character = some value) : hexValue character = some value := by
  have upper : ¬ ('a' ≤ character ∧ character ≤ 'f') := by
    rintro ⟨low, high⟩
    have number : hexUpperValue character = none := by
      have above : ¬ character ≤ '9' := fun small => absurd (low.trans small) (by decide)
      have beyond : ¬ character ≤ 'F' := fun small => absurd (low.trans small) (by decide)
      simp [hexUpperValue, above, beyond]
    rw [number] at digit
    cases digit
  rw [hexValue, if_neg upper, digit]

theorem spells_byte (byte : UInt8) {text : List Char} {bytes : List UInt8}
    (spells : Spells text bytes) : Spells (quoteByte byte ++ text) (byte :: bytes) := by
  rcases quoteByte_cases byte with
    ⟨character, same, free, value⟩ | ⟨high, low, left, right, same, first, second, value⟩
  · rw [same]
    have plain := Spells.plain (free_unreserved free) spells
    rw [value] at plain
    simpa using plain
  · rw [same]
    have triplet := Spells.triplet first second spells
    rw [value] at triplet
    simpa using triplet

theorem quote_spells (text : List Char) : Spells (quote text) (utf8 text) := by
  unfold quote
  induction utf8 text with
  | nil => exact .nil
  | cons byte bytes ih => exact spells_byte byte ih

theorem quoteSpaced_spells (text : List Char) : Spells (quoteSpaced text) (utf8 text) := by
  unfold quoteSpaced
  induction utf8 text with
  | nil => exact .nil
  | cons byte bytes ih =>
      rw [List.flatMap_cons]
      split
      · rename_i space
        subst space
        exact .plain free_space ih
      · exact spells_byte byte ih

section Spelled
variable {text : List Char} {bytes : List UInt8}

theorem spells_free (spells : Spells text bytes) :
    ∀ character ∈ text, character = '%' ∨ Free character := by
  induction spells with
  | nil => simp
  | plain free _ ih =>
      intro character member
      rcases List.mem_cons.mp member with rfl | later
      · exact Or.inr free
      · exact ih character later
  | triplet first second _ ih =>
      intro character member
      simp only [List.mem_cons] at member
      rcases member with rfl | rfl | rfl | later
      · exact Or.inl rfl
      · exact Or.inr (free_hex first)
      · exact Or.inr (free_hex second)
      · exact ih character later

theorem unquoteToBytes_plain (first : Char) (rest : List Char) (plain : first ≠ '%') :
    unquoteToBytes (first :: rest) = UInt8.ofNat first.toNat :: unquoteToBytes rest := by
  rw [unquoteToBytes]
  rintro high low more rfl
  exact fun _ => plain rfl

theorem spells_bytes (spells : Spells text bytes) : unquoteToBytes text = bytes := by
  induction spells with
  | nil => rfl
  | plain free _ ih => rw [unquoteToBytes_plain _ _ free.percent, ih]
  | triplet first second _ ih =>
      simp only [unquoteToBytes, hexValue_upper first, hexValue_upper second, ih]

theorem utf8EncodeChar_ascii (character : Char) (small : character.toNat < 128) :
    String.utf8EncodeChar character = [UInt8.ofNat character.toNat] := by
  have size : character.utf8Size = 1 := by
    rw [Char.utf8Size_eq_one_iff, UInt32.le_iff_toNat_le]
    exact Nat.le_of_lt_succ small
  rw [String.utf8EncodeChar_eq_singleton size]
  rfl

theorem spells_literal (spells : Spells text bytes) (plain : '%' ∉ text) : utf8 text = bytes := by
  induction spells with
  | nil => rfl
  | plain free _ ih =>
      have later := ih fun member => plain (List.mem_cons_of_mem _ member)
      rw [utf8, List.flatMap_cons, utf8EncodeChar_ascii _ free.ascii]
      exact congrArg _ later
  | triplet => exact absurd List.mem_cons_self plain

theorem unquoteParts_ascii (part rest : List Char)
    (every : ∀ character ∈ rest, ascii character = true) :
    unquoteParts part rest = decodeReplace (unquoteToBytes (part ++ rest)) := by
  induction rest generalizing part with
  | nil => rw [List.append_nil, unquoteParts]
  | cons character rest ih =>
      rw [unquoteParts, if_pos (every character List.mem_cons_self),
        ih _ fun other member => every other (List.mem_cons_of_mem _ member), List.append_assoc,
        List.singleton_append]

/-- A text that spells the encoding of another is unquoted to that. -/
theorem unquote_spells {plain : List Char} (spells : Spells text (utf8 plain)) :
    unquote text = plain := by
  unfold unquote
  by_cases triplets : '%' ∈ text
  · have every : ∀ character ∈ text, ascii character = true := by
      intro character member
      rcases spells_free spells character member with rfl | free
      · rfl
      · exact decide_eq_true free.ascii
    rw [if_pos triplets, unquoteParts_ascii [] text every, List.nil_append, spells_bytes spells,
      decodeReplace_utf8]
  · rw [if_neg triplets]
    exact utf8_injective (spells_literal spells triplets)

theorem spells_without (spells : Spells text bytes) (character : Char)
    (special : character = '+' ∨ character = '&' ∨ character = '=') : character ∉ text := by
  intro member
  rcases spells_free spells character member with rfl | free
  · revert special
    decide
  · rcases special with rfl | rfl | rfl
    · exact free.plus rfl
    · exact free.ampersand rfl
    · exact free.equals rfl

end Spelled

theorem plus_spaces (text : List Char) (without : '+' ∉ text) :
    (text.map fun character => if character = ' ' then '+' else character).map
      (fun character => if character = '+' then ' ' else character) = text := by
  rw [List.map_map]
  conv_rhs => rw [← List.map_id text]
  apply List.map_congr_left
  intro character member
  have other : character ≠ '+' := fun same => without (same ▸ member)
  by_cases space : character = ' '
  · simp [space]
  · simp [space, other]

theorem unquotePlus_quotePlus (text : List Char) : unquotePlus (quotePlus text) = text := by
  unfold unquotePlus quotePlus
  by_cases spaces : ' ' ∈ text
  · have spelled := quoteSpaced_spells text
    rw [if_pos spaces, plus_spaces _ (spells_without spelled '+' (by simp))]
    exact unquote_spells spelled
  · have spelled := quote_spells text
    have without := spells_without spelled '+' (by simp)
    have kept : (quote text).map (fun character => if character = '+' then ' ' else character) =
        quote text := by
      conv_rhs => rw [← List.map_id (quote text)]
      apply List.map_congr_left
      intro character member
      apply if_neg
      rintro rfl
      exact without member
    rw [if_neg spaces, kept]
    exact unquote_spells spelled

theorem quotePlus_without (text : List Char) (character : Char)
    (separator : character = '&' ∨ character = '=') : character ∉ quotePlus text := by
  have special : character = '+' ∨ character = '&' ∨ character = '=' := Or.inr separator
  unfold quotePlus
  split
  · intro member
    obtain ⟨source, inside, same⟩ := List.mem_map.mp member
    by_cases space : source = ' '
    · rw [if_pos space] at same
      subst same
      revert separator
      decide
    · rw [if_neg space] at same
      exact spells_without (quoteSpaced_spells text) character special (same ▸ inside)
  · exact spells_without (quote_spells text) character special

theorem partition_field (name value : List Char) (without : '=' ∉ name) :
    partition (name ++ '=' :: value) = (name, value) := by
  have every : ∀ character ∈ name, decide (character ≠ '=') = true := by
    intro character member
    exact decide_eq_true fun same => without (same ▸ member)
  rw [partition, List.takeWhile_append_of_pos every, List.dropWhile_append_of_pos every]
  simp

theorem parseField_printField (pair : List Char × List Char) :
    parseField (printField pair) = pair := by
  rw [parseField, printField, partition_field _ _ (quotePlus_without _ _ (Or.inr rfl)),
    unquotePlus_quotePlus, unquotePlus_quotePlus]

theorem printField_without (pair : List Char × List Char) : '&' ∉ printField pair := by
  intro member
  rcases List.mem_append.mp member with name | rest
  · exact quotePlus_without pair.1 '&' (Or.inl rfl) name
  · rcases List.mem_cons.mp rest with clash | value
    · revert clash
      decide
    · exact quotePlus_without pair.2 '&' (Or.inl rfl) value

/-- Any pairs printed as a query are read back from it, in order. -/
theorem parseQsl_urlencode (pairs : List (List Char × List Char)) :
    parseQsl (urlencode pairs) = pairs := by
  unfold parseQsl urlencode
  by_cases none : pairs = []
  · subst none
    rfl
  · have some : pairs.map printField ≠ [] := by simpa using none
    have fields : ∀ field ∈ pairs.map printField, '&' ∉ field := by
      intro field member
      obtain ⟨pair, -, rfl⟩ := List.mem_map.mp member
      exact printField_without pair
    have filled : ∀ field ∈ pairs.map printField, decide (field ≠ []) = true := by
      intro field member
      obtain ⟨pair, -, rfl⟩ := List.mem_map.mp member
      simp [printField]
    rw [List.splitOn_intercalate '&' fields some, List.filter_eq_self.mpr filled, List.map_map]
    conv_rhs => rw [← List.map_id pairs]
    exact List.map_congr_left fun pair _ => parseField_printField pair

end SecureFileSystem.UrlForm
