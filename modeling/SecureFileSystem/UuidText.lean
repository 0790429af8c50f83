import SecureFileSystem.Stripping

/-!
`uuid.UUID` reads back what `str` prints: the canonical text has only lowercase
hexadecimal digits and hyphens, so none of the lenient forms applies to it.
-/

namespace SecureFileSystem.UuidText

open Base Uuid Stripping

def Printed (character : Char) : Prop := ∃ value < 16, character = hexDigit value

theorem printed_facts (character : Char) (printed : Printed character) :
    (∃ value, hexValue character = some value) ∧ character ≠ '-' ∧ character ≠ '+' ∧
    character ≠ '_' ∧ character ≠ 'x' ∧ character ≠ 'X' ∧ character ≠ 'u' ∧ character ≠ '{' ∧
    character ≠ '}' ∧ character ≠ '\n' ∧ asciiSpace character = false ∧ character.toNat < 128 ∧
    character.toLower = character := by
  obtain ⟨value, small, rfl⟩ := printed
  have every : ∀ value : Fin 16, (∃ digit : Fin 16, hexValue (hexDigit value) = some digit.val) ∧
      hexDigit value ≠ '-' ∧ hexDigit value ≠ '+' ∧ hexDigit value ≠ '_' ∧
      hexDigit value ≠ 'x' ∧ hexDigit value ≠ 'X' ∧ hexDigit value ≠ 'u' ∧
      hexDigit value ≠ '{' ∧ hexDigit value ≠ '}' ∧ hexDigit value ≠ '\n' ∧
      asciiSpace (hexDigit value) = false ∧ (hexDigit value).toNat < 128 ∧
      (hexDigit value).toLower = hexDigit value := by decide
  obtain ⟨⟨digit, known⟩, rest⟩ := every ⟨value, small⟩
  exact ⟨⟨digit.val, known⟩, rest⟩

theorem hexValue_digit (value : Nat) (small : value < 16) :
    hexValue (hexDigit value) = some value := by
  have every : ∀ value : Fin 16, hexValue (hexDigit value) = some value.val := by decide
  exact every ⟨value, small⟩

theorem hexText_printed (width value : Nat) :
    ∀ character ∈ hexText width value, Printed character := by
  induction width generalizing value with
  | zero => exact nofun
  | succ width ih =>
      intro character member
      rcases List.mem_append.mp member with front | last
      · exact ih _ character front
      · exact ⟨value % 16, Nat.mod_lt _ (by decide), List.mem_singleton.mp last⟩

theorem hexText_length (width value : Nat) : (hexText width value).length = width := by
  induction width generalizing value with
  | zero => rfl
  | succ width ih => simp [hexText, ih]

theorem scanHex_digit (start digit : Nat) (flag : Bool) (rest : Text) (small : digit < 16) :
    scanHex start flag (hexDigit digit :: rest) = scanHex (start * 16 + digit) true rest := by
  obtain ⟨-, -, -, plain, -⟩ := printed_facts (hexDigit digit) ⟨digit, small, rfl⟩
  rw [scanHex, if_neg plain, hexValue_digit digit small]

theorem scanHex_text (width value start : Nat) (flag : Bool) (rest : Text) :
    scanHex start flag (hexText width value ++ rest) =
      scanHex (start * 16 ^ width + value % 16 ^ width) (flag || decide (0 < width)) rest := by
  induction width generalizing value rest with
  | zero => simp [hexText, Nat.mod_one]
  | succ width ih =>
      rw [hexText, List.append_assoc, ih, List.singleton_append,
        scanHex_digit _ _ _ _ (Nat.mod_lt _ (by decide))]
      have sum : (start * 16 ^ width + value / 16 % 16 ^ width) * 16 + value % 16 =
          start * 16 ^ (width + 1) + value % 16 ^ (width + 1) := by
        rw [Nat.pow_succ', Nat.mod_mul, Nat.mul_comm 16, ← Nat.mul_assoc]
        omega
      rw [sum]
      simp

theorem removeFrom_absent (word : Text) (first : Char) (more : Text) (text : Text)
    (same : word = first :: more) (absent : first ∉ text) : remove word text = text := by
  subst same
  unfold remove
  induction text with
  | nil => rfl
  | cons head rest ih =>
      rw [List.mem_cons, not_or] at absent
      have other : (first :: more).isPrefixOf (head :: rest) = false := by
        simp [List.isPrefixOf, absent.1]
      rw [removeFrom, other, if_neg Bool.false_ne_true, ih absent.2]

theorem remove_hyphens (text : Text) : remove ['-'] text = text.filter (· ≠ '-') := by
  unfold remove
  induction text with
  | nil => rfl
  | cons head rest ih =>
      by_cases hit : head = '-'
      · subst hit
        simpa [removeFrom] using ih
      · have other : ¬ '-' = head := fun same => hit same.symm
        simp [removeFrom, hit, other, ih]

theorem uuidText_groups (id : Uuid) : ∃ one two three four five : Text,
    uuidText id = one ++ '-' :: two ++ '-' :: three ++ '-' :: four ++ '-' :: five ∧
    one ++ two ++ three ++ four ++ five = hexText 32 id.toNat := by
  refine ⟨_, _, _, _, _, rfl, ?_⟩
  have joins : ∀ (text : Text) (start size : Nat),
      (text.drop start).take size ++ text.drop (start + size) = text.drop start := by
    intro text start size
    rw [← List.drop_drop, List.take_append_drop]
  simp only [List.append_assoc]
  rw [joins _ 16 4, joins _ 12 4, joins _ 8 4, List.take_append_drop]

theorem uuidText_printed (id : Uuid) :
    ∀ character ∈ uuidText id, character = '-' ∨ Printed character := by
  obtain ⟨one, two, three, four, five, text, digits⟩ := uuidText_groups id
  have printed : ∀ character, character ∈ one ++ two ++ three ++ four ++ five →
      Printed character := by
    intro character member
    rw [digits] at member
    exact hexText_printed 32 id.toNat character member
  intro character member
  rw [text] at member
  simp only [List.mem_append, List.mem_cons] at member printed
  grind

theorem uuidText_digits (id : Uuid) :
    (uuidText id).filter (· ≠ '-') = hexText 32 id.toNat := by
  obtain ⟨one, two, three, four, five, text, digits⟩ := uuidText_groups id
  have clean : (one ++ two ++ three ++ four ++ five).filter (· ≠ '-') =
      one ++ two ++ three ++ four ++ five := by
    refine List.filter_eq_self.mpr fun character member => ?_
    rw [digits] at member
    obtain ⟨-, plain, -⟩ := printed_facts character (hexText_printed 32 id.toNat character member)
    simpa using plain
  rw [← digits, ← clean, text]
  simp [List.filter_append]

theorem hex_facts (character : Char) (value : Nat) (known : hexValue character = some value) :
    character ≠ '-' ∧ character ≠ '+' ∧ character ≠ 'x' ∧ character ≠ 'X' ∧ character ≠ 'u' ∧
    character ≠ '{' ∧ character ≠ '}' ∧ character ≠ '.' ∧ character ≠ '/' ∧
    asciiSpace character = false ∧ character.toNat < 128 ∧
    hexValue character.toLower = some value ∧ Printed character.toLower := by
  have small : character.toNat < 128 := by
    unfold hexValue at known
    simp only [Char.le_def, UInt32.le_iff_toNat_le] at known
    unfold Char.toNat
    split at known
    · rename_i range
      exact lt_of_le_of_lt range.2 (by decide)
    split at known
    · rename_i range
      exact lt_of_le_of_lt range.2 (by decide)
    split at known
    · rename_i range
      exact lt_of_le_of_lt range.2 (by decide)
    · cases known
  have table : ∀ number : Fin 128, (hexValue (Char.ofNat number)).isSome = true →
      Char.ofNat number ≠ '-' ∧ Char.ofNat number ≠ '+' ∧ Char.ofNat number ≠ 'x' ∧
      Char.ofNat number ≠ 'X' ∧ Char.ofNat number ≠ 'u' ∧ Char.ofNat number ≠ '{' ∧
      Char.ofNat number ≠ '}' ∧ Char.ofNat number ≠ '.' ∧ Char.ofNat number ≠ '/' ∧
      asciiSpace (Char.ofNat number) = false ∧
      hexValue (Char.ofNat number).toLower = hexValue (Char.ofNat number) ∧
      (∃ digit : Fin 16, (Char.ofNat number).toLower = hexDigit digit) := by decide +kernel
  have row := table ⟨character.toNat, small⟩
  simp only [Char.ofNat_toNat] at row
  rw [known] at row
  obtain ⟨minus, plus, lower, upper, letter, left, right, dot, slash, solid, same, digit, printed⟩ :=
    row rfl
  exact ⟨minus, plus, lower, upper, letter, left, right, dot, slash, solid, small, same,
    digit.val, digit.isLt, printed⟩

/-- Hexadecimal digits alone meet none of the lenient forms `int` accepts. -/
theorem intBase16_hex (unicode : Unicode) (first second : Char) (rest : Text) (value : Nat)
    (digits : ∀ character ∈ first :: second :: rest, (hexValue character).isSome = true)
    (scanned : scanHex 0 false (first :: second :: rest) = some (value, true, [])) :
    intBase16 unicode (first :: second :: rest) = some (value : Int) := by
  have facts : ∀ character ∈ first :: second :: rest, ∃ digit, hexValue character = some digit :=
    fun character member => Option.isSome_iff_exists.mp (digits character member)
  have ascii : toAscii unicode (first :: second :: rest) = first :: second :: rest := by
    rw [toAscii, if_pos]
    refine List.all_eq_true.mpr fun character member => ?_
    obtain ⟨digit, known⟩ := facts character member
    obtain ⟨-, -, -, -, -, -, -, -, -, -, small, -⟩ := hex_facts character digit known
    simpa using small
  obtain ⟨firstDigit, firstKnown⟩ := facts first (by simp)
  obtain ⟨minus, plus, -, -, -, -, -, -, -, solid, -⟩ := hex_facts first firstDigit firstKnown
  obtain ⟨secondDigit, secondKnown⟩ := facts second (by simp)
  obtain ⟨-, -, lower, upper, -⟩ := hex_facts second secondDigit secondKnown
  have trimmed : (first :: second :: rest).dropWhile asciiSpace = first :: second :: rest := by
    rw [List.dropWhile_cons, solid, if_neg Bool.false_ne_true]
  have unsigned : signOf (first :: second :: rest) = (false, first :: second :: rest) := by
    unfold signOf
    split
    · rename_i same
      exact absurd (List.cons.inj same).1 minus
    · rename_i same
      exact absurd (List.cons.inj same).1 plus
    · rfl
  have whole : unprefixed (first :: second :: rest) = first :: second :: rest := by
    unfold unprefixed
    split
    · rename_i same
      exact absurd (List.cons.inj (List.cons.inj same).2).1 lower
    · rename_i same
      exact absurd (List.cons.inj (List.cons.inj same).2).1 upper
    · rename_i same
      exact absurd (List.cons.inj (List.cons.inj same).2).1 lower
    · rename_i same
      exact absurd (List.cons.inj (List.cons.inj same).2).1 upper
    · rfl
  simp [intBase16, ascii, trimmed, unsigned, whole, scanned]

theorem intBase16_text (unicode : Unicode) (value : Nat) (bound : value < 16 ^ 32) :
    intBase16 unicode (hexText 32 value) = some (value : Int) := by
  have printed : ∀ character ∈ hexText 32 value, (hexValue character).isSome = true := by
    intro character member
    obtain ⟨⟨digit, known⟩, -⟩ := printed_facts character (hexText_printed 32 value character member)
    rw [known]
    rfl
  have length := hexText_length 32 value
  have scanned := scanHex_text 32 value 0 false []
  rw [List.append_nil, Nat.zero_mul, Nat.zero_add, Nat.mod_eq_of_lt bound] at scanned
  match hexText 32 value, printed, length, scanned with
  | [], _, length, _ => cases length
  | [_], _, length, _ => cases length
  | first :: second :: rest, printed, _, scanned =>
      exact intBase16_hex unicode first second rest value printed scanned

theorem uuidText_absent (id : Uuid) (character : Char) (hyphen : character ≠ '-')
    (foreign : ¬ Printed character) : character ∉ uuidText id := by
  intro member
  rcases uuidText_printed id character member with same | printed
  · exact hyphen same
  · exact foreign printed

/-- `uuid.UUID(str(id))` is `id`. -/
theorem uuidOf_uuidText (unicode : Unicode) (id : Uuid) : uuidOf unicode (uuidText id) = some id := by
  have noU : 'u' ∉ uuidText id := uuidText_absent id 'u' (by decide) fun printed =>
    (printed_facts 'u' printed).2.2.2.2.2.2.1 rfl
  have noBrace : ∀ character ∈ uuidText id, decide (character ∈ ['{', '}']) = false := by
    intro character member
    rcases uuidText_printed id character member with rfl | printed
    · decide
    · obtain ⟨-, -, -, -, -, -, -, left, right, -⟩ := printed_facts character printed
      simp [left, right]
  have value : id.toNat < 16 ^ 32 := by
    have bound := id.isLt
    omega
  unfold uuidOf
  rw [removeFrom_absent "urn:".toList 'u' ['r', 'n', ':'] _ rfl noU,
    removeFrom_absent "uuid:".toList 'u' ['u', 'i', 'd', ':'] _ rfl noU]
  simp only [strip_clean _ _ noBrace]
  have hyphens : remove "-".toList (uuidText id) = hexText 32 id.toNat := by
    rw [← uuidText_digits]
    exact remove_hyphens (uuidText id)
  rw [hyphens, if_neg (not_not.mpr (hexText_length 32 id.toNat)), intBase16_text unicode _ value,
    Option.bind_some, if_pos ⟨Int.natCast_nonneg _, by have bound := id.isLt; omega⟩, Int.toNat_natCast,
    BitVec.ofNat_toNat, BitVec.setWidth_eq]

end SecureFileSystem.UuidText
