import SecureFileSystem.StorageNode
import SecureFileSystem.Links

/-!
Which texts are accepted as ids: the canonical spelling of a UUID in either
case and nothing else, although `uuid.UUID` itself reads many more.
-/

namespace SecureFileSystem.ShardId

open Base Uuid Stripping UuidText TextCodec Signing Links StorageNode

def Spelled (text : Text) : Prop :=
  ∃ one two three four five : Text,
    text = one ++ '-' :: two ++ '-' :: three ++ '-' :: four ++ '-' :: five ∧
    one.length = 8 ∧ two.length = 4 ∧ three.length = 4 ∧ four.length = 4 ∧ five.length = 12 ∧
    ∀ character ∈ one ++ two ++ three ++ four ++ five, (hexValue character).isSome = true

/-- `str.lower`: ASCII letters one by one, and no other character becomes one of
the digits or the hyphen of a UUID (the Kelvin sign becomes a k). -/
structure LowerTable (unicode : Unicode) : Prop where
  ascii : AsciiLower unicode
  foreign : ∀ text : Text, ∀ character ∈ text, 128 ≤ character.toNat →
    ∃ image ∈ unicode.lower text, 128 ≤ image.toNat ∨ image = 'k'

theorem hex_lower (character : Char) (digit : (hexValue character).isSome = true) :
    Printed character.toLower := by
  obtain ⟨value, known⟩ := Option.isSome_iff_exists.mp digit
  obtain ⟨-, -, -, -, -, -, -, -, -, -, -, -, printed⟩ := hex_facts character value known
  exact printed

theorem hexText_onto (text : Text) (printed : ∀ character ∈ text, Printed character) :
    ∃ value < 16 ^ text.length, hexText text.length value = text := by
  induction text using List.reverseRecOn with
  | nil => exact ⟨0, by simp, rfl⟩
  | append_singleton text last ih =>
      obtain ⟨value, small, same⟩ := ih fun character member =>
        printed character (List.mem_append_left _ member)
      obtain ⟨digit, bound, rfl⟩ := printed last (by simp)
      refine ⟨value * 16 + digit, ?_, ?_⟩
      · rw [List.length_append, List.length_singleton, Nat.pow_succ]
        omega
      · have front : (value * 16 + digit) / 16 = value := by omega
        have back : (value * 16 + digit) % 16 = digit := by omega
        rw [List.length_append, List.length_singleton, hexText, front, back, same]

/-- Digits are read alike in either case. -/
theorem scanHex_lower (value : Nat) (flag : Bool) (text : Text)
    (digits : ∀ character ∈ text, (hexValue character).isSome = true) :
    scanHex value flag text = scanHex value flag (text.map Char.toLower) := by
  induction text generalizing value flag with
  | nil => rfl
  | cons first rest ih =>
      obtain ⟨digit, known⟩ := Option.isSome_iff_exists.mp (digits first List.mem_cons_self)
      obtain ⟨-, -, -, -, -, -, -, -, -, -, -, same, printed⟩ := hex_facts first digit known
      have plain : first ≠ '_' := by
        rintro rfl
        cases known
      obtain ⟨-, -, -, lowered, -⟩ := printed_facts first.toLower printed
      rw [List.map_cons, scanHex, scanHex, if_neg plain, if_neg lowered, known, same]
      exact ih _ _ fun character member => digits character (List.mem_cons_of_mem _ member)

theorem uuidText_five (id : Uuid) {one two three four five : Text}
    (digits : hexText 32 id.toNat = one ++ two ++ three ++ four ++ five) (first : one.length = 8)
    (second : two.length = 4) (third : three.length = 4) (fourth : four.length = 4) :
    uuidText id = one ++ '-' :: two ++ '-' :: three ++ '-' :: four ++ '-' :: five := by
  unfold uuidText
  rw [digits]
  simp [List.drop_append, first, second, third, fourth, List.drop_of_length_le]

theorem spelled_characters {text : Text} (spelled : Spelled text) :
    ∀ character ∈ text, character = '-' ∨ (hexValue character).isSome = true := by
  obtain ⟨one, two, three, four, five, rfl, -, -, -, -, -, digits⟩ := spelled
  simp only [List.mem_append, List.mem_cons] at digits ⊢
  grind

theorem spelled_absent {text : Text} (spelled : Spelled text) (character : Char)
    (hyphen : character ≠ '-') (foreign : hexValue character = none) : character ∉ text := by
  intro member
  rcases spelled_characters spelled character member with same | digit
  · exact hyphen same
  · rw [foreign] at digit
    cases digit

theorem intBase16_either (unicode : Unicode) (text : Text) (value : Nat) (small : value < 16 ^ 32)
    (digits : ∀ character ∈ text, (hexValue character).isSome = true)
    (printed : hexText 32 value = text.map Char.toLower) :
    intBase16 unicode text = some (value : Int) := by
  have scanned : scanHex 0 false text = some (value, true, []) := by
    have read := scanHex_text 32 value 0 false []
    rw [List.append_nil, Nat.zero_mul, Nat.zero_add, Nat.mod_eq_of_lt small] at read
    rw [scanHex_lower 0 false text digits, ← printed, read]
    rfl
  have length : text.length = 32 := by
    have same := congrArg List.length printed
    rw [hexText_length, List.length_map] at same
    exact same.symm
  match text, digits, scanned, length with
  | [], _, _, length => cases length
  | [_], _, _, length => cases length
  | first :: second :: rest, digits, scanned, _ =>
      exact intBase16_hex unicode first second rest value digits scanned

/-- What is spelled as a UUID is read as the one it prints, up to case. -/
theorem spelled_read (text : Text) (spelled : Spelled text) :
    ∃ id, uuidText id = text.map Char.toLower ∧ ∀ unicode, uuidOf unicode text = some id := by
  -- Without `u` or braces, `uuid.UUID` has only the hyphens to take out.
  have noU := spelled_absent spelled 'u' (by decide) (by decide)
  have noBrace : ∀ character ∈ text, decide (character ∈ ['{', '}']) = false := by
    intro character member
    have left := spelled_absent spelled '{' (by decide) (by decide)
    have right := spelled_absent spelled '}' (by decide) (by decide)
    have apart : character ≠ '{' ∧ character ≠ '}' :=
      ⟨fun same => left (same ▸ member), fun same => right (same ▸ member)⟩
    simpa using apart
  obtain ⟨one, two, three, four, five, rfl, first, second, third, fourth, fifth, digits⟩ := spelled
  have length : (one ++ two ++ three ++ four ++ five).length = 32 := by
    simp [first, second, third, fourth, fifth]
  obtain ⟨value, small, printed⟩ := hexText_onto
    ((one ++ two ++ three ++ four ++ five).map Char.toLower) (by
      intro character member
      obtain ⟨original, inside, rfl⟩ := List.mem_map.mp member
      exact hex_lower original (digits original inside))
  rw [List.length_map, length] at small printed
  have number : (BitVec.ofNat 128 value).toNat = value := by
    rw [BitVec.toNat_ofNat]
    exact Nat.mod_eq_of_lt (by omega)
  refine ⟨BitVec.ofNat 128 value, ?_, fun unicode => ?_⟩
  · have groups := printed
    simp only [List.map_append] at groups
    rw [← number] at groups
    rw [uuidText_five (BitVec.ofNat 128 value) groups (by simpa using first) (by simpa using second)
      (by simpa using third) (by simpa using fourth)]
    simp
  · have hyphens : remove "-".toList
        (one ++ '-' :: two ++ '-' :: three ++ '-' :: four ++ '-' :: five) =
        one ++ two ++ three ++ four ++ five := by
      have kept : ∀ part : Text, (∀ character ∈ part, (hexValue character).isSome = true) →
          part.filter (· ≠ '-') = part := by
        intro part hex
        refine List.filter_eq_self.mpr fun character member => ?_
        obtain ⟨digit, known⟩ := Option.isSome_iff_exists.mp (hex character member)
        obtain ⟨minus, -⟩ := hex_facts character digit known
        simpa using minus
      refine (remove_hyphens _).trans ?_
      rw [← kept _ digits]
      simp [List.filter_append]
    unfold uuidOf
    rw [removeFrom_absent "urn:".toList 'u' ['r', 'n', ':'] _ rfl noU,
      removeFrom_absent "uuid:".toList 'u' ['u', 'i', 'd', ':'] _ rfl noU]
    simp only [strip_clean _ _ noBrace]
    rw [hyphens, if_neg (not_not.mpr length), intBase16_either unicode _ value small digits printed,
      Option.bind_some, if_pos ⟨Int.natCast_nonneg _, by omega⟩, Int.toNat_natCast]

theorem uuidText_spelled (id : Uuid) : Spelled (uuidText id) := by
  have length := hexText_length 32 id.toNat
  refine ⟨_, _, _, _, _, rfl, ?_, ?_, ?_, ?_, ?_, ?_⟩
  · simp [length]
  · simp [length]
  · simp [length]
  · simp [length]
  · simp [length]
  · intro character member
    have printed : character ∈ hexText 32 id.toNat := by
      simp only [List.mem_append] at member
      rcases member with (((one | two) | three) | four) | five
      · exact List.mem_of_mem_take one
      · exact List.mem_of_mem_drop (List.mem_of_mem_take two)
      · exact List.mem_of_mem_drop (List.mem_of_mem_take three)
      · exact List.mem_of_mem_drop (List.mem_of_mem_take four)
      · exact List.mem_of_mem_drop five
    obtain ⟨⟨digit, known⟩, -⟩ := printed_facts character (hexText_printed 32 _ character printed)
    rw [known]
    rfl

theorem lower_ascii (character : Char) (small : character.toNat < 128) :
    (character.toLower = '-' → character = '-') ∧
      ((hexValue character.toLower).isSome = true → (hexValue character).isSome = true) := by
  have table : ∀ number : Fin 128, ((Char.ofNat number).toLower = '-' → Char.ofNat number = '-') ∧
      ((hexValue (Char.ofNat number).toLower).isSome = true →
        (hexValue (Char.ofNat number)).isSome = true) := by decide +kernel
  have row := table ⟨character.toNat, small⟩
  simpa only [Char.ofNat_toNat] using row

theorem lower_hyphen {text front back : Text} (ascii : ∀ character ∈ text, character.toNat < 128)
    (lowered : text.map Char.toLower = front ++ '-' :: back) :
    ∃ left right, text = left ++ '-' :: right ∧ left.map Char.toLower = front ∧
      right.map Char.toLower = back := by
  obtain ⟨left, later, rfl, before, rest⟩ := List.map_eq_append_iff.mp lowered
  obtain ⟨first, right, rfl, hyphen, after⟩ := List.map_eq_cons_iff.mp rest
  have small := ascii first (by simp)
  obtain rfl := (lower_ascii first small).1 hyphen
  exact ⟨left, right, rfl, before, after⟩

theorem spelled_of_lower {text : Text} (ascii : ∀ character ∈ text, character.toNat < 128)
    (lowered : Spelled (text.map Char.toLower)) : Spelled text := by
  obtain ⟨one, two, three, four, five, same, first, second, third, fourth, fifth, digits⟩ := lowered
  simp only [List.append_assoc, List.cons_append] at same
  obtain ⟨one, fromTwo, rfl, rfl, sameTwo⟩ := lower_hyphen ascii same
  obtain ⟨two, fromThree, rfl, rfl, sameThree⟩ :=
    lower_hyphen (fun character member => ascii character (by simp [member])) sameTwo
  obtain ⟨three, fromFour, rfl, rfl, sameFour⟩ :=
    lower_hyphen (fun character member => ascii character (by simp [member])) sameThree
  obtain ⟨four, five, rfl, rfl, rfl⟩ :=
    lower_hyphen (fun character member => ascii character (by simp [member])) sameFour
  simp only [List.length_map] at first second third fourth fifth
  refine ⟨one, two, three, four, five, by simp, first, second, third, fourth, fifth, ?_⟩
  intro character member
  have small : character.toNat < 128 := by
    apply ascii character
    simp only [List.mem_append, List.mem_cons] at member ⊢
    grind
  apply (lower_ascii character small).2
  apply digits
  simp only [← List.map_append]
  exact List.mem_map_of_mem member

/-- The parser and the comparison together accept the canonical spellings and no others. -/
theorem spelled_iff {unicode : Unicode} (table : LowerTable unicode) (text : Text) :
    Spelled text ↔ ∃ id, uuidOf unicode text = some id ∧ uuidText id = unicode.lower text := by
  constructor
  · intro spelled
    obtain ⟨id, printed, read⟩ := spelled_read text spelled
    refine ⟨id, read unicode, printed.trans (table.ascii text ?_).symm⟩
    intro character member
    rcases spelled_characters spelled character member with rfl | digit
    · decide
    · obtain ⟨value, known⟩ := Option.isSome_iff_exists.mp digit
      obtain ⟨-, -, -, -, -, -, -, -, -, -, small, -⟩ := hex_facts character value known
      exact small
  · rintro ⟨id, -, printed⟩
    have spelled := uuidText_spelled id
    have ascii : ∀ character ∈ text, character.toNat < 128 := by
      intro character member
      by_contra large
      obtain ⟨image, inside, foreign⟩ := table.foreign text character member (Nat.not_lt.mp large)
      rw [← printed] at inside
      rcases spelled_characters spelled image inside with rfl | digit
      · revert foreign
        decide
      · obtain ⟨value, known⟩ := Option.isSome_iff_exists.mp digit
        obtain ⟨-, -, -, -, -, -, -, -, -, -, small, -⟩ := hex_facts image value known
        rcases foreign with large | rfl
        · exact Nat.not_lt.mpr large small
        · cases known
    rw [printed, table.ascii text ascii] at spelled
    exact spelled_of_lower ascii spelled

def finalPath (shardDir : Text) (id : Uuid) : Text := shardDir ++ '/' :: uuidText id

def tempPrefix : Text := ".tmp-".toList

/-- Which ids a storage node and `verify` accept, and what the node does with one. -/
structure CanonicalOnly (library : Library) (platform : Platform) : Prop where
  accepted : ∀ text, Spelled text → ∃ id, validateShardId library text = .ok id ∧
    uuidText id = text.map Char.toLower
  refused : ∀ text, ¬ Spelled text → ∃ message, validateShardId library text = .error message
  component : ∀ text id, validateShardId library text = .ok id →
    '/' ∉ uuidText id ∧ '.' ∉ uuidText id ∧ ∀ suffix, uuidText id ≠ tempPrefix ++ suffix
  path : ∀ shardDir left right leftId rightId, validateShardId library left = .ok leftId →
    validateShardId library right = .ok rightId →
    finalPath shardDir leftId = finalPath shardDir rightId →
      left.map Char.toLower = right.map Char.toLower
  verified : ∀ text, Spelled text ↔ ∃ keys exp v kid sig now claims,
    verify platform keys text exp v kid sig now = .ok claims

theorem canonical_only (library : Library) (platform : Platform)
    (table : LowerTable library.unicode) (signing : LowerTable platform.unicode) :
    CanonicalOnly library platform := by
  -- What is accepted is printed as its own lower case.
  have lowered : ∀ text id, validateShardId library text = .ok id →
      uuidText id = text.map Char.toLower := by
    intro text id valid
    obtain ⟨read, printed⟩ := (validateShardId_canonical library _ _).mpr valid
    have spelled := (spelled_iff table text).mpr ⟨id, read, printed⟩
    obtain ⟨other, lower, every⟩ := spelled_read text spelled
    obtain rfl := Option.some.inj ((every library.unicode).symm.trans read)
    exact lower
  constructor
  case accepted =>
    intro text spelled
    obtain ⟨id, both⟩ := (spelled_iff table text).mp spelled
    have valid := (validateShardId_canonical library _ _).mp both
    exact ⟨id, valid, lowered text id valid⟩
  case refused =>
    intro text refused
    cases checked : validateShardId library text with
    | error message => exact ⟨message, rfl⟩
    | ok id => exact absurd ((spelled_iff table text).mpr ⟨id, (validateShardId_canonical library _ _).mpr checked⟩) refused
  case component =>
    intro text id _
    have spelled := uuidText_spelled id
    have dot := spelled_absent spelled '.' (by decide) (by decide)
    refine ⟨spelled_absent spelled '/' (by decide) (by decide), dot, fun suffix same => dot ?_⟩
    rw [same]
    exact List.mem_cons_self
  case path =>
    intro shardDir left right leftId rightId leftValid rightValid same
    have texts := (List.cons.inj (List.append_cancel_left same)).2
    rw [← lowered left leftId leftValid, ← lowered right rightId rightValid, texts]
  case verified =>
    intro text
    constructor
    · intro spelled
      obtain ⟨id, read, printed⟩ := (spelled_iff signing text).mp spelled
      have one : digits ['1'] = true := by decide
      have live : (0 : Int) < (decimalValue ['1'] : Nat) := by decide
      have accepted : Accepted platform [([], [])] text ['1'] ['1'] []
          (sign platform [] [] id (decimalValue ['1']) (decimalValue ['1'])) 0
          ⟨id, decimalValue ['1'], decimalValue ['1'], []⟩ :=
        ⟨one, one, ⟨[], rfl, rfl⟩, read, printed, rfl, rfl, rfl, live⟩
      exact ⟨_, _, _, _, _, _, _, verify_of_accepted accepted⟩
    · rintro ⟨keys, exp, v, kid, sig, now, claims, answered⟩
      obtain ⟨_, _, _, _, -, -, -, -, accepted⟩ := accepted_of_verify answered
      exact (spelled_iff signing text).mpr ⟨claims.fileId, accepted.parsed, accepted.canonical⟩

theorem plain_lower : LowerTable plain.unicode := by
  refine ⟨fun _ _ => rfl, fun text character member large => ?_⟩
  refine ⟨character.toLower, List.mem_map_of_mem member, Or.inl ?_⟩
  unfold Char.toLower
  split
  · rename_i upper
    have small : character.toNat ≤ 90 := upper.2
    omega
  · exact large

def smallSpelling (digit : Char) : Text :=
  List.replicate 8 '0' ++ '-' :: List.replicate 4 '0' ++ '-' :: List.replicate 4 '0' ++
    '-' :: List.replicate 4 '0' ++ '-' :: (List.replicate 11 '0' ++ [digit])

theorem smallSpelling_spelled (digit : Char) (hex : (hexValue digit).isSome = true) :
    Spelled (smallSpelling digit) := by
  refine ⟨_, _, _, _, _, rfl, rfl, rfl, rfl, rfl, rfl, ?_⟩
  intro character member
  have either : character = '0' ∨ character = digit := by
    simp only [List.mem_append, List.mem_replicate, List.mem_singleton] at member
    tauto
  rcases either with rfl | rfl
  · decide
  · exact hex

theorem canonical_only_small : ∃ id,
    validateShardId smallLibrary (smallSpelling 'A') = .ok id ∧ uuidText id = smallSpelling 'a' := by
  have only := canonical_only smallLibrary plain plain_lower plain_lower
  obtain ⟨id, valid, lowered⟩ :=
    only.accepted (smallSpelling 'A') (smallSpelling_spelled 'A' (by decide))
  exact ⟨id, valid, lowered.trans (by decide)⟩

end SecureFileSystem.ShardId
