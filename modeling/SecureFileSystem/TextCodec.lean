import Mathlib

/-!
Text encodings: UTF-8, decimal numbers, percent-encoding and unpadded base64url,
each injective, and fields joined by a separator that none of them contains.
-/

namespace SecureFileSystem.TextCodec

def utf8 (text : List Char) : List UInt8 := text.flatMap String.utf8EncodeChar

theorem utf8_injective : Function.Injective utf8 := by
  intro left right same
  have bytes : left.utf8Encode = right.utf8Encode := congrArg List.toByteArray same
  have decoded := congrArg ByteArray.utf8Decode? bytes
  simpa using decoded

def decodeUtf8 (bytes : List UInt8) : Option (List Char) :=
  bytes.toByteArray.utf8Decode?.map Array.toList

theorem decodeUtf8_utf8 (text : List Char) : decodeUtf8 (utf8 text) = some text := by
  have decoded : text.utf8Encode.utf8Decode? = some text.toArray := by simp
  exact congrArg (Option.map Array.toList) decoded

/-- `bytes.decode(errors="ignore")`, with `skip` bytes of a decoded character
still to drop. What is left of an ill-formed sequence without its first byte
begins no character, so dropping that byte alone comes to the same. -/
def decodeFrom : Nat → List UInt8 → List Char
  | _, [] => []
  | skip + 1, _ :: rest => decodeFrom skip rest
  | 0, first :: rest =>
      match (first :: rest).toByteArray.utf8DecodeChar? 0 with
      | some character => character :: decodeFrom (character.utf8Size - 1) rest
      | none => decodeFrom 0 rest

def decodeIgnore (bytes : List UInt8) : List Char := decodeFrom 0 bytes

theorem decodeFrom_skip (front rest : List UInt8) :
    decodeFrom front.length (front ++ rest) = decodeFrom 0 rest := by
  induction front with
  | nil => rfl
  | cons first front ih => exact ih

/-- An encoded character is recognised at its first byte, whatever follows it. -/
theorem encoded_begins (character : Char) (rest : List UInt8) : ∃ first more,
    String.utf8EncodeChar character ++ rest = first :: (more ++ rest) ∧
      more.length = character.utf8Size - 1 ∧
      (first :: (more ++ rest)).toByteArray.utf8DecodeChar? 0 = some character := by
  have decoded := @ByteArray.utf8DecodeChar?_utf8EncodeChar_append rest.toByteArray character
  rw [← List.toByteArray_append] at decoded
  have size := String.length_utf8EncodeChar character
  cases encoded : String.utf8EncodeChar character with
  | nil =>
      rw [encoded] at size
      exact absurd size.symm character.utf8Size_pos.ne'
  | cons first more =>
      rw [encoded] at size decoded
      refine ⟨first, more, rfl, ?_, decoded⟩
      rw [← size, List.length_cons, Nat.add_sub_cancel]

theorem decodeIgnore_append (character : Char) (rest : List UInt8) :
    decodeIgnore (String.utf8EncodeChar character ++ rest) = character :: decodeIgnore rest := by
  obtain ⟨first, more, whole, size, decoded⟩ := encoded_begins character rest
  rw [whole, decodeIgnore, decodeFrom, decoded]
  dsimp only
  rw [← size, decodeFrom_skip]
  rfl

theorem decodeFrom_tail (bytes : List UInt8) (tail : ∀ byte ∈ bytes, ¬ byte.IsUTF8FirstByte) :
    decodeFrom 0 bytes = [] := by
  induction bytes with
  | nil => rfl
  | cons first rest ih =>
      have none : (first :: rest).toByteArray.utf8DecodeChar? 0 = none := by
        by_contra some
        have begins := ByteArray.isUTF8FirstByte_of_isSome_utf8DecodeChar?
          (Option.isSome_iff_ne_none.mpr some)
        exact tail first List.mem_cons_self (by simpa using begins)
      rw [decodeFrom, none]
      exact ih fun byte member => tail byte (List.mem_cons_of_mem _ member)

theorem decodeIgnore_cut (character : Char) (count : Nat) (short : count < character.utf8Size) :
    decodeIgnore ((String.utf8EncodeChar character).take count) = [] := by
  have size := String.length_utf8EncodeChar character
  have undecodable : ((String.utf8EncodeChar character).take count).toByteArray.utf8DecodeChar? 0 =
      none := by
    by_contra some
    obtain ⟨other, decoded⟩ := Option.ne_none_iff_exists'.mp some
    obtain ⟨rest, split⟩ := ByteArray.exists_of_utf8DecodeChar?_eq_some decoded
    have whole : (String.utf8EncodeChar character).toByteArray = (String.utf8EncodeChar other).toByteArray ++
        (rest ++ ((String.utf8EncodeChar character).drop count).toByteArray) := by
      rw [← ByteArray.append_assoc, ← split, ← List.toByteArray_append, List.take_append_drop]
    have same : character = other := by
      have left := @ByteArray.utf8DecodeChar?_utf8EncodeChar_append ByteArray.empty character
      rw [ByteArray.append_empty, whole, ByteArray.utf8DecodeChar?_utf8EncodeChar_append] at left
      exact (Option.some.inj left).symm
    have shorter := congrArg ByteArray.size split
    simp only [List.size_toByteArray, ByteArray.size_append, List.length_take] at shorter
    rw [← same, size] at shorter
    omega
  cases taken : (String.utf8EncodeChar character).take count with
  | nil => rfl
  | cons first rest =>
      rw [taken] at undecodable
      rw [decodeIgnore, decodeFrom, undecodable]
      apply decodeFrom_tail
      intro byte member
      obtain ⟨index, inside, rfl⟩ := List.mem_iff_getElem.mp member
      have place : rest[index] = (first :: rest).get ⟨index + 1, by simpa using inside⟩ := rfl
      simp only [← taken, List.get_eq_getElem, List.getElem_take] at place
      rw [place, UInt8.isUTF8FirstByte_getElem_utf8EncodeChar]
      omega

/-- Bytes cut at a limit decode to the longest prefix of the text within it. -/
theorem decodeIgnore_take (text : List Char) (limit : Nat) :
    decodeIgnore ((utf8 text).take limit) <+: text ∧
      (utf8 (decodeIgnore ((utf8 text).take limit))).length ≤ limit ∧
      ∀ other, other <+: text → (utf8 other).length ≤ limit →
        other <+: decodeIgnore ((utf8 text).take limit) := by
  induction text generalizing limit with
  | nil =>
      have empty : decodeIgnore ((utf8 []).take limit) = [] := by
        simp [utf8, decodeIgnore, decodeFrom]
      rw [empty]
      exact ⟨List.nil_prefix, Nat.zero_le _, fun other fits _ => fits⟩
  | cons character rest ih =>
      have size := String.length_utf8EncodeChar character
      have bytes : utf8 (character :: rest) = String.utf8EncodeChar character ++ utf8 rest := rfl
      by_cases room : character.utf8Size ≤ limit
      · have cut : (utf8 (character :: rest)).take limit =
            String.utf8EncodeChar character ++ (utf8 rest).take (limit - character.utf8Size) := by
          rw [bytes, List.take_append, size, List.take_of_length_le (by omega)]
        obtain ⟨within, fits, longest⟩ := ih (limit - character.utf8Size)
        rw [cut, decodeIgnore_append]
        refine ⟨(List.prefix_cons_inj character).mpr within, ?_, fun other inside short => ?_⟩
        · change (String.utf8EncodeChar character ++ utf8 _).length ≤ limit
          rw [List.length_append, size]
          omega
        · cases other with
          | nil => exact List.nil_prefix
          | cons first more =>
              obtain ⟨rfl, tail⟩ := List.cons_prefix_cons.mp inside
              change (String.utf8EncodeChar first ++ utf8 more).length ≤ limit at short
              rw [List.length_append, size] at short
              exact (List.prefix_cons_inj first).mpr (longest more tail (by omega))
      · have cut : (utf8 (character :: rest)).take limit =
            (String.utf8EncodeChar character).take limit := by
          rw [bytes, List.take_append_of_le_length (by omega)]
        rw [cut, decodeIgnore_cut character limit (by omega)]
        refine ⟨List.nil_prefix, Nat.zero_le _, fun other inside short => ?_⟩
        cases other with
        | nil => exact List.nil_prefix
        | cons first more =>
            obtain ⟨rfl, -⟩ := List.cons_prefix_cons.mp inside
            change (String.utf8EncodeChar first ++ utf8 more).length ≤ limit at short
            rw [List.length_append, size] at short
            omega

def decimal (number : Nat) : List Char := Nat.toDigits 10 number

def decimalValue (text : List Char) : Nat := Nat.ofDigitChars 10 text 0

theorem decimalValue_decimal (number : Nat) : decimalValue (decimal number) = number :=
  Nat.ofDigitChars_ten_toDigits

theorem decimal_injective : Function.Injective decimal :=
  Function.LeftInverse.injective decimalValue_decimal

theorem decimal_digits (number : Nat) : ∀ character ∈ decimal number, character.isDigit = true :=
  fun _ member => Nat.isDigit_of_mem_toDigits (by decide) (by decide) member

theorem decimal_length (number count : Nat) (positive : 0 < count) :
    (decimal number).length ≤ count ↔ number < 10 ^ count :=
  Nat.length_toDigits_le_iff (by decide) positive

theorem separated {Symbol : Type} {separator : Symbol} {left right rest others : List Symbol}
    (inLeft : separator ∉ left) (inRight : separator ∉ right)
    (same : left ++ separator :: rest = right ++ separator :: others) :
    left = right ∧ rest = others := by
  induction left generalizing right with
  | nil =>
      cases right with
      | nil => exact ⟨rfl, (List.cons.inj same).2⟩
      | cons head tail =>
          have clash : separator = head := (List.cons.inj same).1
          exact absurd (clash ▸ List.mem_cons_self) inRight
  | cons first more ih =>
      cases right with
      | nil =>
          have clash : first = separator := (List.cons.inj same).1
          exact absurd (clash ▸ List.mem_cons_self) inLeft
      | cons head tail =>
          obtain ⟨rfl, tails⟩ := List.cons.inj same
          obtain ⟨rfl, ends⟩ := ih (fun member => inLeft (List.mem_cons_of_mem _ member))
            (fun member => inRight (List.mem_cons_of_mem _ member)) tails
          exact ⟨rfl, ends⟩

def hexUpper (value : Nat) : Char :=
  if value < 10 then Char.ofNat (48 + value) else Char.ofNat (55 + value)

def hexUpperValue (character : Char) : Option Nat :=
  if '0' ≤ character ∧ character ≤ '9' then some (character.toNat - 48)
  else if 'A' ≤ character ∧ character ≤ 'F' then some (character.toNat - 55)
  else none

def unreserved (character : Char) : Bool :=
  character.isAlphanum || character ∈ ['_', '.', '-', '~']

def quoteByte (byte : UInt8) : List Char :=
  if unreserved (Char.ofNat byte.toNat) then [Char.ofNat byte.toNat]
  else ['%', hexUpper (byte.toNat / 16), hexUpper (byte.toNat % 16)]

/-- `urllib.parse.quote(text, safe="")` -/
def quote (text : List Char) : List Char := (utf8 text).flatMap quoteByte

inductive Quoted : List Char → Prop
  | nil : Quoted []
  | plain {character : Char} {rest : List Char} (free : unreserved character = true)
      (more : Quoted rest) : Quoted (character :: rest)
  | triplet {high low : Char} {rest : List Char} (first : (hexUpperValue high).isSome = true)
      (second : (hexUpperValue low).isSome = true) (more : Quoted rest) :
      Quoted ('%' :: high :: low :: rest)

def percentDecode : List Char → Option (List UInt8)
  | '%' :: high :: low :: rest =>
      match hexUpperValue high, hexUpperValue low with
      | some left, some right =>
          (percentDecode rest).map fun bytes => UInt8.ofNat (left * 16 + right) :: bytes
      | _, _ => none
  | first :: rest =>
      if unreserved first then
        (percentDecode rest).map fun bytes => UInt8.ofNat first.toNat :: bytes
      else none
  | [] => some []

theorem percentDecode_plain (first : Char) (rest : List Char) (free : unreserved first = true) :
    percentDecode (first :: rest) =
      (percentDecode rest).map fun bytes => UInt8.ofNat first.toNat :: bytes := by
  have plain : first ≠ '%' := by
    rintro rfl
    revert free
    decide
  rw [percentDecode, if_pos free]
  rintro high low more rfl
  exact fun _ => plain rfl

theorem quoteByte_cases (byte : UInt8) :
    (∃ character, quoteByte byte = [character] ∧ unreserved character = true ∧
      character.toNat = byte.toNat) ∨
    ∃ high low left right, quoteByte byte = ['%', high, low] ∧ hexUpperValue high = some left ∧
      hexUpperValue low = some right ∧ left * 16 + right = byte.toNat := by
  have table : ∀ number : Fin 256,
      (unreserved (Char.ofNat number) = true ∧ (Char.ofNat number).toNat = number) ∨
      (unreserved (Char.ofNat number) = false ∧
        hexUpperValue (hexUpper (number / 16)) = some (number.val / 16) ∧
        hexUpperValue (hexUpper (number % 16)) = some (number.val % 16)) := by decide +kernel
  have row := table ⟨byte.toNat, byte.toNat_lt⟩
  dsimp only at row
  unfold quoteByte
  rcases row with ⟨free, same⟩ | ⟨reserved, high, low⟩
  · rw [if_pos free]
    exact Or.inl ⟨_, rfl, free, same⟩
  · rw [if_neg (by simpa using reserved)]
    exact Or.inr ⟨_, _, _, _, rfl, high, low, by omega⟩

theorem flatMap_quoted (bytes : List UInt8) : Quoted (bytes.flatMap quoteByte) := by
  induction bytes with
  | nil => exact .nil
  | cons byte bytes ih =>
      rw [List.flatMap_cons]
      rcases quoteByte_cases byte with
        ⟨character, same, free, -⟩ | ⟨high, low, left, right, same, first, second, -⟩
      · rw [same]
        exact .plain free ih
      · rw [same]
        exact .triplet (by rw [first]; rfl) (by rw [second]; rfl) ih

theorem percentDecode_flatMap (bytes : List UInt8) :
    percentDecode (bytes.flatMap quoteByte) = some bytes := by
  induction bytes with
  | nil => rfl
  | cons byte bytes ih =>
      rw [List.flatMap_cons]
      rcases quoteByte_cases byte with
        ⟨character, same, free, value⟩ | ⟨high, low, left, right, same, first, second, value⟩
      · rw [same, List.singleton_append, percentDecode_plain _ _ free, ih, value]
        simp
      · simp only [same, List.cons_append, List.nil_append, percentDecode, first, second, ih, value]
        simp

/-- What `quote` prints, percent-decoded and read as UTF-8, is the text again. -/
theorem decode_quote (text : List Char) : (percentDecode (quote text)).bind decodeUtf8 = some text := by
  rw [quote, percentDecode_flatMap, Option.bind_some, decodeUtf8_utf8]

def Printable (character : Char) : Prop := 0x20 ≤ character.toNat ∧ character.toNat ≤ 0x7E

theorem unreserved_printable {character : Char} (free : unreserved character = true) :
    Printable character := by
  unfold unreserved at free
  rw [Bool.or_eq_true, decide_eq_true_eq] at free
  rcases free with alphanumeric | listed
  · simp only [Char.isAlphanum, Char.isAlpha, Char.isUpper, Char.isLower, Char.isDigit,
      Bool.or_eq_true, Bool.and_eq_true, decide_eq_true_eq, ge_iff_le, UInt32.le_iff_toNat_le]
      at alphanumeric
    have value : character.toNat = character.val.toNat := rfl
    rcases alphanumeric with (⟨low, high⟩ | ⟨low, high⟩) | ⟨low, high⟩ <;>
      (simp at low high; exact ⟨by omega, by omega⟩)
  · simp only [List.mem_cons, List.not_mem_nil, or_false] at listed
    rcases listed with rfl | rfl | rfl | rfl <;> exact ⟨by decide, by decide⟩

theorem hexUpper_printable {character : Char} (digit : (hexUpperValue character).isSome = true) :
    Printable character := by
  unfold hexUpperValue at digit
  simp only [Char.le_def, UInt32.le_iff_toNat_le] at digit
  have value : character.toNat = character.val.toNat := rfl
  split at digit
  · rename_i range
    simp at range
    exact ⟨by omega, by omega⟩
  split at digit
  · rename_i range
    simp at range
    exact ⟨by omega, by omega⟩
  · cases digit

theorem quoted_printable {text : List Char} (quoted : Quoted text) :
    ∀ character ∈ text, Printable character := by
  induction quoted with
  | nil => exact nofun
  | plain free _ ih =>
      intro character member
      rcases List.mem_cons.mp member with rfl | later
      · exact unreserved_printable free
      · exact ih character later
  | triplet first second _ ih =>
      intro character member
      simp only [List.mem_cons] at member
      rcases member with rfl | rfl | rfl | later
      · exact ⟨by decide, by decide⟩
      · exact hexUpper_printable first
      · exact hexUpper_printable second
      · exact ih character later

def base64Char (value : Nat) : Char :=
  if value < 26 then Char.ofNat (65 + value)
  else if value < 52 then Char.ofNat (71 + value)
  else if value < 62 then Char.ofNat (value - 4)
  else if value = 62 then '-'
  else '_'

def urlsafeB64Encode : List UInt8 → List Char
  | [] => []
  | [first] =>
      let value := first.toNat * 16
      [base64Char (value / 64), base64Char (value % 64), '=', '=']
  | [first, second] =>
      let value := (first.toNat * 256 + second.toNat) * 4
      [base64Char (value / 4096), base64Char (value / 64 % 64), base64Char (value % 64), '=']
  | first :: second :: third :: rest =>
      let value := (first.toNat * 256 + second.toNat) * 256 + third.toNat
      base64Char (value / 262144) :: base64Char (value / 4096 % 64) ::
        base64Char (value / 64 % 64) :: base64Char (value % 64) :: urlsafeB64Encode rest

def stripPadding (text : List Char) : List Char := (text.reverse.dropWhile (· = '=')).reverse

def unpadded (bytes : List UInt8) : List Char := stripPadding (urlsafeB64Encode bytes)

theorem base64Char_padding (value : Nat) (small : value < 64) : base64Char value ≠ '=' := by
  have every : ∀ value : Fin 64, base64Char value ≠ '=' := by decide
  exact every ⟨value, small⟩

theorem base64Char_injective {left right : Nat} (smallLeft : left < 64) (smallRight : right < 64)
    (same : base64Char left = base64Char right) : left = right := by
  have every : ∀ left right : Fin 64, base64Char left = base64Char right → left = right := by
    decide +kernel
  exact congrArg Fin.val (every ⟨left, smallLeft⟩ ⟨right, smallRight⟩ same)

theorem stripPadding_cons (first : Char) (rest : List Char) (kept : first ≠ '=') :
    stripPadding (first :: rest) = first :: stripPadding rest := by
  unfold stripPadding
  rw [List.reverse_cons, List.dropWhile_append]
  split
  · rename_i empty
    rw [List.isEmpty_iff] at empty
    simp [empty, kept]
  · simp

theorem stripPadding_replicate (count : Nat) : stripPadding (List.replicate count '=') = [] := by
  simp [stripPadding]

theorem unpadded_one (first : UInt8) : unpadded [first] =
    [base64Char (first.toNat * 16 / 64), base64Char (first.toNat * 16 % 64)] := by
  have bound := first.toNat_lt
  unfold unpadded urlsafeB64Encode
  rw [stripPadding_cons _ _ (base64Char_padding _ (by omega)),
    stripPadding_cons _ _ (base64Char_padding _ (by omega))]
  exact congrArg _ (congrArg _ (stripPadding_replicate 2))

theorem unpadded_two (first second : UInt8) : unpadded [first, second] =
    [base64Char ((first.toNat * 256 + second.toNat) * 4 / 4096),
      base64Char ((first.toNat * 256 + second.toNat) * 4 / 64 % 64),
      base64Char ((first.toNat * 256 + second.toNat) * 4 % 64)] := by
  have bound := first.toNat_lt
  have bound' := second.toNat_lt
  unfold unpadded urlsafeB64Encode
  rw [stripPadding_cons _ _ (base64Char_padding _ (by omega)),
    stripPadding_cons _ _ (base64Char_padding _ (by omega)),
    stripPadding_cons _ _ (base64Char_padding _ (by omega))]
  exact congrArg _ (congrArg _ (congrArg _ (stripPadding_replicate 1)))

theorem unpadded_three (first second third : UInt8) (rest : List UInt8) :
    unpadded (first :: second :: third :: rest) =
      base64Char (((first.toNat * 256 + second.toNat) * 256 + third.toNat) / 262144) ::
      base64Char (((first.toNat * 256 + second.toNat) * 256 + third.toNat) / 4096 % 64) ::
      base64Char (((first.toNat * 256 + second.toNat) * 256 + third.toNat) / 64 % 64) ::
      base64Char (((first.toNat * 256 + second.toNat) * 256 + third.toNat) % 64) ::
      unpadded rest := by
  have bound := first.toNat_lt
  have bound' := second.toNat_lt
  have bound'' := third.toNat_lt
  unfold unpadded
  rw [urlsafeB64Encode, stripPadding_cons _ _ (base64Char_padding _ (by omega)),
    stripPadding_cons _ _ (base64Char_padding _ (by omega)),
    stripPadding_cons _ _ (base64Char_padding _ (by omega)),
    stripPadding_cons _ _ (base64Char_padding _ (by omega))]

theorem unpadded_nil : unpadded [] = [] := rfl

theorem unpadded_injective : Function.Injective unpadded := by
  intro left right same
  -- Groups of three bytes; the length of the last group tells the cases apart.
  induction left using urlsafeB64Encode.induct generalizing right with
  | case1 =>
      match right with
      | [] => rfl
      | [_] => rw [unpadded_one, unpadded_nil] at same; cases same
      | [_, _] => rw [unpadded_two, unpadded_nil] at same; cases same
      | _ :: _ :: _ :: _ => rw [unpadded_three, unpadded_nil] at same; cases same
  | case2 first =>
      match right with
      | [] => rw [unpadded_one, unpadded_nil] at same; cases same
      | [other] =>
          have bound := first.toNat_lt
          have bound' := other.toNat_lt
          simp only [unpadded_one, List.cons.injEq, and_true] at same
          have high := base64Char_injective (by omega) (by omega) same.1
          have low := base64Char_injective (by omega) (by omega) same.2
          rw [UInt8.toNat_inj.mp (show first.toNat = other.toNat by omega)]
      | [_, _] =>
          rw [unpadded_one, unpadded_two] at same
          simp only [List.cons.injEq, reduceCtorEq, and_false] at same
      | _ :: _ :: _ :: _ =>
          rw [unpadded_one, unpadded_three] at same
          simp only [List.cons.injEq, reduceCtorEq, and_false] at same
  | case3 first second =>
      match right with
      | [] => rw [unpadded_two, unpadded_nil] at same; cases same
      | [_] =>
          rw [unpadded_one, unpadded_two] at same
          simp only [List.cons.injEq, reduceCtorEq, and_false] at same
      | [other, another] =>
          have bounds := And.intro first.toNat_lt second.toNat_lt
          have bounds' := And.intro other.toNat_lt another.toNat_lt
          simp only [unpadded_two, List.cons.injEq, and_true] at same
          have high := base64Char_injective (by omega) (by omega) same.1
          have middle := base64Char_injective (by omega) (by omega) same.2.1
          have low := base64Char_injective (by omega) (by omega) same.2.2
          rw [UInt8.toNat_inj.mp (show first.toNat = other.toNat by omega),
            UInt8.toNat_inj.mp (show second.toNat = another.toNat by omega)]
      | _ :: _ :: _ :: _ =>
          rw [unpadded_two, unpadded_three] at same
          simp only [List.cons.injEq, reduceCtorEq, and_false] at same
  | case4 first second third rest ih =>
      match right with
      | [] => rw [unpadded_three, unpadded_nil] at same; cases same
      | [_] =>
          rw [unpadded_one, unpadded_three] at same
          simp only [List.cons.injEq, reduceCtorEq, and_false] at same
      | [_, _] =>
          rw [unpadded_two, unpadded_three] at same
          simp only [List.cons.injEq, reduceCtorEq, and_false] at same
      | other :: another :: yet :: more =>
          have bounds := And.intro first.toNat_lt (And.intro second.toNat_lt third.toNat_lt)
          have bounds' := And.intro other.toNat_lt (And.intro another.toNat_lt yet.toNat_lt)
          rw [unpadded_three, unpadded_three] at same
          simp only [List.cons.injEq] at same
          have one := base64Char_injective (by omega) (by omega) same.1
          have two := base64Char_injective (by omega) (by omega) same.2.1
          have three := base64Char_injective (by omega) (by omega) same.2.2.1
          have four := base64Char_injective (by omega) (by omega) same.2.2.2.1
          rw [UInt8.toNat_inj.mp (show first.toNat = other.toNat by omega),
            UInt8.toNat_inj.mp (show second.toNat = another.toNat by omega),
            UInt8.toNat_inj.mp (show third.toNat = yet.toNat by omega), ih same.2.2.2.2]

end SecureFileSystem.TextCodec
