import SecureFileSystem.Assoc
import SecureFileSystem.Links

/-!
Rotation of the signing key. The operator prints the current key into the list
of retired ones, and the parser reads it back. It comes back as it was exactly
when it holds no comma and does not end in whitespace.
-/

namespace SecureFileSystem.Rotation

open Base Uuid Stripping Assoc SecureFileSystem.Configuration Signing Links

/-- `str.isspace` holds of no comma and of no key id character. -/
def SpacesApart (unicode : Unicode) : Prop :=
  ∀ character, unicode.isSpace character = true →
    character ≠ ',' ∧ keyIdPattern [character] = false

/-- `SFS_PREVIOUS_SECRET_KEYS` with the current key moved into it. -/
def retire (unicode : Unicode) (settings : Settings) : Text :=
  settings.previousSecretKeys ++
    (if strip unicode.isSpace settings.previousSecretKeys = [] then [] else [',']) ++
      (settings.secretKeyId ++ ':' :: settings.secretKey)

def rotated (unicode : Unicode) (settings : Settings) (kid key : Text) : Settings :=
  { settings with
    secretKey := key
    secretKeyId := kid
    previousSecretKeys := retire unicode settings }

/-- The documented rotation, to a valid key under a fresh valid id. -/
structure Rotates (unicode : Unicode) (before after : Settings) : Prop where
  kid : keyIdPattern after.secretKeyId = true
  fresh : ∀ keys, before.signingKeys unicode = some keys → after.secretKeyId ∉ keys.map (·.1)
  key : minSecretLength ≤ after.secretKey.length
  same : after = rotated unicode before after.secretKeyId after.secretKey

/-- Every key stays known, and with it every link. -/
structure Preserves (platform : Platform) (before after : Settings) : Prop where
  accepted : after.accepted platform.unicode = true
  keys : ∀ known, before.signingKeys platform.unicode = some known →
    ∃ knownAfter, after.signingKeys platform.unicode = some knownAfter ∧
      (∀ kid ∈ known.map (·.1), knownAfter.lookup kid = known.lookup kid) ∧
      ∀ fileId exp v kid sig now claims,
        verify platform known fileId exp v kid sig now = .ok claims →
          verify platform knownAfter fileId exp v kid sig now = .ok claims

def Clean (unicode : Unicode) (key : Text) : Prop :=
  ',' ∉ key ∧ ∀ last ∈ key.getLast?, unicode.isSpace last = false

def parts (unicode : Unicode) (raw : Text) : List Text :=
  ((raw.splitOn ',').map (strip unicode.isSpace)).filter (· ≠ [])

theorem splitOn_absent (separator : Char) (text piece : Text)
    (member : piece ∈ text.splitOn separator) : separator ∉ piece := by
  rw [List.splitOn_eq_splitOnP] at member
  induction text generalizing piece with
  | nil =>
      obtain rfl := List.mem_singleton.mp member
      exact List.not_mem_nil
  | cons first rest ih =>
      rw [List.splitOnP_cons_eq_if_modifyHead] at member
      obtain ⟨head, tail, split⟩ :=
        List.exists_cons_of_ne_nil (List.splitOnP_ne_nil (· == separator) rest)
      by_cases separates : (first == separator) = true
      · rw [if_pos separates] at member
        rcases List.mem_cons.mp member with rfl | later
        · exact List.not_mem_nil
        · exact ih piece later
      · rw [if_neg separates, split, List.modifyHead_cons] at member
        rw [split] at ih
        rcases List.mem_cons.mp member with rfl | later
        · rintro (_ | ⟨_, inside⟩)
          · exact separates (by simp)
          · exact ih head List.mem_cons_self inside
        · exact ih piece (List.mem_cons_of_mem _ later)

theorem parts_clean (unicode : Unicode) (raw entry : Text) (member : entry ∈ parts unicode raw) :
    Clean unicode entry := by
  obtain ⟨piece, split, rfl⟩ := List.mem_map.mp (List.mem_of_mem_filter member)
  constructor
  · intro inside
    exact splitOn_absent ',' raw piece split ((strip_sublist _ _).subset inside)
  · exact strip_last _ _

theorem keyIdPattern_member (kid : Text) (pattern : keyIdPattern kid = true) :
    ∀ character ∈ kid, keyIdPattern [character] = true := by
  intro character member
  simp only [keyIdPattern, Bool.and_eq_true] at pattern
  have allowed := List.all_eq_true.mp pattern.2 character member
  simpa [keyIdPattern] using allowed

theorem keyIdPattern_absent (kid : Text) (pattern : keyIdPattern kid = true) (character : Char)
    (refused : keyIdPattern [character] = false) : character ∉ kid := by
  intro member
  rw [keyIdPattern_member kid pattern character member] at refused
  cases refused

theorem strip_printed (unicode : Unicode) (spaces : SpacesApart unicode) (kid key : Text)
    (pattern : keyIdPattern kid = true) (long : minSecretLength ≤ key.length)
    (clean : Clean unicode key) :
    strip unicode.isSpace (kid ++ ':' :: key) = kid ++ ':' :: key := by
  apply strip_kept
  · intro first head
    cases kid with
    | nil => simp [keyIdPattern] at pattern
    | cons character rest =>
        obtain rfl : character = first := by simpa using head
        have allowed := keyIdPattern_member _ pattern character List.mem_cons_self
        by_contra space
        have refused := (spaces character (by simpa using space)).2
        rw [allowed] at refused
        cases refused
  · intro last member
    apply clean.2 last
    cases key with
    | nil => simp [minSecretLength] at long
    | cons character rest => simpa [List.getLast?_cons] using member

theorem parts_retire (unicode : Unicode) (spaces : SpacesApart unicode) (settings : Settings)
    (pattern : keyIdPattern settings.secretKeyId = true)
    (long : minSecretLength ≤ settings.secretKey.length)
    (clean : Clean unicode settings.secretKey) :
    parts unicode (retire unicode settings) =
      parts unicode settings.previousSecretKeys ++
        [settings.secretKeyId ++ ':' :: settings.secretKey] := by
  have printed := strip_printed unicode spaces _ _ pattern long clean
  have whole : ∀ character ∈ settings.secretKeyId ++ ':' :: settings.secretKey,
      (character == ',') = false := by
    intro character member
    rcases List.mem_append.mp member with inKid | inRest
    · have absent := keyIdPattern_absent _ pattern ',' (by decide)
      have apart : character ≠ ',' := fun same => absent (same ▸ inKid)
      simpa using apart
    · rcases List.mem_cons.mp inRest with rfl | inKey
      · decide
      · have apart : character ≠ ',' := fun same => clean.1 (same ▸ inKey)
        simpa using apart
  have nonempty : settings.secretKeyId ++ ':' :: settings.secretKey ≠ [] := by simp
  unfold parts retire
  simp only [List.splitOn_eq_splitOnP]
  by_cases blank : strip unicode.isSpace settings.previousSecretKeys = []
  · have spacesOnly : ∀ character ∈ settings.previousSecretKeys, (character == ',') = false := by
      intro character member
      simpa using (spaces character (strip_nil _ _ blank character member)).1
    have joined : ∀ character ∈ settings.previousSecretKeys ++
        (settings.secretKeyId ++ ':' :: settings.secretKey), (character == ',') = false := by
      intro character member
      rcases List.mem_append.mp member with front | back
      · exact spacesOnly character front
      · exact whole character back
    rw [if_pos blank, List.append_nil, List.splitOnP_eq_singleton joined,
      List.splitOnP_eq_singleton spacesOnly]
    simp [strip_append _ _ _ blank, printed, blank]
  · rw [if_neg blank, List.append_assoc, List.singleton_append,
      List.splitOnP_append_cons _ _ (by simp), List.splitOnP_eq_singleton whole]
    simp [printed]

theorem parseEntries_append (keys : Keys) (front back : List Text) :
    parseEntries keys (front ++ back) =
      (parseEntries keys front).bind fun next => parseEntries next back := by
  induction front generalizing keys with
  | nil => rfl
  | cons entry rest ih =>
      simp only [List.cons_append, parseEntries]
      cases parseEntry keys entry with
      | none => rfl
      | some next => exact ih next

theorem partition_printed (kid key : Text) (pattern : keyIdPattern kid = true) :
    partition (kid ++ ':' :: key) = some (kid, key) := by
  have absent := keyIdPattern_absent kid pattern ':' (by decide)
  have apart : ∀ character ∈ kid, decide (character ≠ ':') = true := by
    intro character member
    have other : character ≠ ':' := fun same => absent (same ▸ member)
    simpa using other
  unfold partition
  rw [List.dropWhile_append_of_pos apart, List.takeWhile_append_of_pos apart]
  simp

theorem parseEntry_printed (keys : Keys) (kid key : Text) (pattern : keyIdPattern kid = true)
    (long : minSecretLength ≤ key.length) (fresh : kid ∉ keys.map (·.1)) :
    parseEntry keys (kid ++ ':' :: key) = some (keys.set kid key) := by
  unfold parseEntry
  rw [partition_printed kid key pattern]
  exact if_pos ⟨pattern, long, fresh⟩

/-- Every key the parser returns ends its entry. -/
theorem parseEntry_clean (unicode : Unicode) (keys parsed : Keys) (entry : Text)
    (clean : Clean unicode entry) (held : ∀ pair ∈ keys, Clean unicode pair.2)
    (answered : parseEntry keys entry = some parsed) : ∀ pair ∈ parsed, Clean unicode pair.2 := by
  unfold parseEntry at answered
  split at answered
  · cases answered
  · rename_i kid key found
    split at answered
    · rename_i checked
      cases answered
      have suffix : key <:+ entry := by
        unfold partition at found
        split at found
        · cases found
        · rename_i colon tail dropped
          cases found
          exact (List.suffix_cons colon key).trans (dropped ▸ List.dropWhile_suffix _)
      have nonempty : key ≠ [] := by
        rintro rfl
        exact absurd checked.2.1 (by decide)
      rintro pair member
      rcases List.mem_append.mp member with old | new
      · exact held pair (List.mem_of_mem_filter old)
      · obtain rfl := List.mem_singleton.mp new
        obtain ⟨front, rfl⟩ := suffix
        constructor
        · intro comma
          exact clean.1 (List.mem_append_right front comma)
        · intro last member
          apply clean.2 last
          rwa [List.getLast?_append_of_ne_nil _ nonempty]
    · cases answered

theorem parseEntries_clean (unicode : Unicode) (entries : List Text) (keys parsed : Keys)
    (clean : ∀ entry ∈ entries, Clean unicode entry) (held : ∀ pair ∈ keys, Clean unicode pair.2)
    (answered : parseEntries keys entries = some parsed) :
    ∀ pair ∈ parsed, Clean unicode pair.2 := by
  induction entries generalizing keys with
  | nil =>
      cases answered
      exact held
  | cons entry rest ih =>
      obtain ⟨next, entered, parsedRest⟩ := Option.bind_eq_some_iff.mp answered
      apply ih next
      · intro other member
        exact clean other (List.mem_cons_of_mem _ member)
      · exact parseEntry_clean unicode keys next entry (clean entry List.mem_cons_self) held entered
      · exact parsedRest

theorem accepted_keys (unicode : Unicode) (settings : Settings)
    (accepted : settings.accepted unicode = true) :
    ∃ retired, parseKeyList unicode settings.previousSecretKeys = some retired ∧
      settings.secretKeyId ∉ retired.map (·.1) ∧
      settings.signingKeys unicode =
        some (retired.set settings.secretKeyId settings.secretKey) := by
  unfold Settings.accepted at accepted
  cases parsed : parseKeyList unicode settings.previousSecretKeys with
  | none => simp [parsed] at accepted
  | some retired =>
      rw [parsed, Bool.and_eq_true] at accepted
      refine ⟨retired, rfl, of_decide_eq_true accepted.2, ?_⟩
      simp [Settings.signingKeys, parsed]

theorem parse_retire (unicode : Unicode) (spaces : SpacesApart unicode) (settings : Settings)
    (accepted : settings.accepted unicode = true) (clean : Clean unicode settings.secretKey) :
    parseKeyList unicode (retire unicode settings) = settings.signingKeys unicode := by
  obtain ⟨retired, parsed, fresh, known⟩ := accepted_keys unicode settings accepted
  simp only [Settings.accepted, Bool.and_eq_true, decide_eq_true_eq] at accepted
  have before : parseEntries [] (parts unicode settings.previousSecretKeys) = some retired := parsed
  change parseEntries [] (parts unicode (retire unicode settings)) = _
  rw [parts_retire unicode spaces settings accepted.1.2.1 accepted.1.1 clean, parseEntries_append,
    before, known]
  simp only [Option.bind_some, parseEntries,
    parseEntry_printed retired _ _ accepted.1.2.1 accepted.1.1 fresh]

theorem verify_mono (platform : Platform) (known knownAfter : Keys)
    (same : ∀ kid ∈ known.map (·.1), knownAfter.lookup kid = known.lookup kid)
    (fileId : Text) (exp v kid sig : Option Text) (now : Int) (claims : LinkClaims)
    (answered : verify platform known fileId exp v kid sig now = .ok claims) :
    verify platform knownAfter fileId exp v kid sig now = .ok claims := by
  obtain ⟨expText, vText, kidText, sigText, rfl, rfl, rfl, rfl, accepted⟩ :=
    accepted_of_verify answered
  obtain ⟨key, found, signed⟩ := accepted.signed
  have listed : kidText ∈ known.map (·.1) :=
    List.mem_map.mpr ⟨(kidText, key), mem_of_lookup _ _ _ found, rfl⟩
  have foundAfter : knownAfter.lookup kidText = some key := (same kidText listed).trans found
  exact verify_of_accepted { accepted with signed := ⟨key, foundAfter, signed⟩ }

theorem clean_preserves (platform : Platform) (spaces : SpacesApart platform.unicode)
    (before after : Settings) (rotates : Rotates platform.unicode before after)
    (accepted : before.accepted platform.unicode = true)
    (clean : Clean platform.unicode before.secretKey) : Preserves platform before after := by
  obtain ⟨retired, -, -, known⟩ := accepted_keys platform.unicode before accepted
  have parsed := parse_retire platform.unicode spaces before accepted clean
  have fresh := rotates.fresh _ known
  have previous : after.previousSecretKeys = retire platform.unicode before :=
    congrArg Settings.previousSecretKeys rotates.same
  rw [known, ← previous] at parsed
  have knownAfter : after.signingKeys platform.unicode =
      some ((retired.set before.secretKeyId before.secretKey).set after.secretKeyId
        after.secretKey) := by
    simp [Settings.signingKeys, parsed]
  constructor
  · have ranges := accepted
    simp only [Settings.accepted, Bool.and_eq_true, decide_eq_true_eq] at ranges ⊢
    rw [parsed]
    constructor
    · have same := rotates.same
      refine ⟨rotates.key, rotates.kid, ?_⟩
      rw [same]
      exact ranges.1.2.2
    · exact decide_eq_true fresh
  · intro keys answered
    obtain rfl : retired.set before.secretKeyId before.secretKey = keys :=
      Option.some.inj (known.symm.trans answered)
    have same : ∀ kid ∈ (retired.set before.secretKeyId before.secretKey).map (·.1),
        ((retired.set before.secretKeyId before.secretKey).set after.secretKeyId
          after.secretKey).lookup kid =
            (retired.set before.secretKeyId before.secretKey).lookup kid := by
      intro kid listed
      have other : kid ≠ after.secretKeyId := fun equal => fresh (equal ▸ listed)
      exact (lookup_replace _ _ _ _).trans (if_neg other)
    exact ⟨_, knownAfter, same, verify_mono platform _ _ same⟩

/-- A key that comes back is clean, since the parser returns no other. -/
theorem preserves_clean (platform : Platform) (before after : Settings)
    (rotates : Rotates platform.unicode before after)
    (accepted : before.accepted platform.unicode = true)
    (preserves : Preserves platform before after) :
    Clean platform.unicode before.secretKey := by
  obtain ⟨retired, -, -, known⟩ := accepted_keys platform.unicode before accepted
  obtain ⟨parsed, listed, -, knownAfter⟩ :=
    accepted_keys platform.unicode after preserves.accepted
  obtain ⟨keys, answered, same, -⟩ := preserves.keys _ known
  obtain rfl : parsed.set after.secretKeyId after.secretKey = keys :=
    Option.some.inj (knownAfter.symm.trans answered)
  have current : before.secretKeyId ∈
      (retired.set before.secretKeyId before.secretKey).map (·.1) :=
    List.mem_map.mpr ⟨_, mem_of_lookup _ _ _ (lookup_set _ _ _), rfl⟩
  have other : before.secretKeyId ≠ after.secretKeyId := fun equal =>
    rotates.fresh _ known (equal ▸ current)
  have kept := same _ current
  unfold Keys.set at kept
  rw [lookup_replace, lookup_replace, if_neg other, if_pos rfl] at kept
  have clean := parseEntries_clean platform.unicode _ [] parsed
    (parts_clean platform.unicode after.previousSecretKeys) (by simp) listed
  exact clean _ (mem_of_lookup _ _ _ kept)

theorem preserves_trans (platform : Platform) (first second third : Settings)
    (left : Preserves platform first second) (right : Preserves platform second third) :
    Preserves platform first third := by
  constructor
  · exact right.accepted
  · intro known answered
    obtain ⟨middle, answeredMiddle, sameMiddle, -⟩ := left.keys known answered
    obtain ⟨last, answeredLast, sameLast, -⟩ := right.keys middle answeredMiddle
    have same : ∀ kid ∈ known.map (·.1), last.lookup kid = known.lookup kid := by
      intro kid listed
      cases found : known.lookup kid with
      | none =>
          obtain ⟨entry, member, rfl⟩ := List.mem_map.mp listed
          have absent := List.lookup_eq_none_iff.mp found entry member
          simp at absent
      | some key =>
          have foundMiddle := (sameMiddle kid listed).trans found
          have listedMiddle : kid ∈ middle.map (·.1) :=
            List.mem_map.mpr ⟨_, mem_of_lookup _ _ _ foundMiddle, rfl⟩
          exact (sameLast kid listedMiddle).trans foundMiddle
    exact ⟨last, answeredLast, same, verify_mono platform _ _ same⟩

/-- Along a chain of rotations every configuration preserves the keys and the
links of all before it, exactly when every key rotated away is clean. -/
theorem rotation_preserves (platform : Platform) (spaces : SpacesApart platform.unicode)
    (chain : List Settings) (rotations : chain.IsChain (Rotates platform.unicode))
    (accepted : ∀ settings ∈ chain.head?, settings.accepted platform.unicode = true) :
    chain.Pairwise (Preserves platform) ↔
      ∀ settings ∈ chain.dropLast, Clean platform.unicode settings.secretKey := by
  induction chain with
  | nil => simp
  | cons first rest ih =>
      have valid := accepted first rfl
      cases rest with
      | nil => simp
      | cons second others =>
          obtain ⟨rotates, later⟩ := List.isChain_cons_cons.mp rotations
          rw [List.dropLast_cons_cons]
          constructor
          · intro pairs
            obtain ⟨kept, laterPairs⟩ := List.pairwise_cons.mp pairs
            have step := kept second List.mem_cons_self
            have cleanLater := (ih later (by rintro _ ⟨rfl⟩; exact step.accepted)).mp laterPairs
            rintro settings (_ | ⟨_, further⟩)
            · exact preserves_clean platform first second rotates valid step
            · exact cleanLater settings further
          · intro clean
            have step := clean_preserves platform spaces first second rotates valid
              (clean first List.mem_cons_self)
            have pairs := (ih later (by rintro _ ⟨rfl⟩; exact step.accepted)).mpr
              fun settings further => clean settings (List.mem_cons_of_mem _ further)
            apply List.pairwise_cons.mpr
            constructor
            · intro settings member
              rcases List.mem_cons.mp member with rfl | further
              · exact step
              · exact preserves_trans platform first second settings step
                  ((List.pairwise_cons.mp pairs).1 settings further)
            · exact pairs

theorem plain_spaces : SpacesApart plain.unicode := by
  intro character space
  have listed : character ∈ [' ', '\t', '\n', '\x0b', '\x0c', '\r'] := of_decide_eq_true space
  simp only [List.mem_cons, List.not_mem_nil, or_false] at listed
  rcases listed with rfl | rfl | rfl | rfl | rfl | rfl <;> decide

/-- Two rotations in a row. -/
theorem rotation_preserves_small :
    [Service.smallSettings,
      rotated plain.unicode Service.smallSettings ['b'] (List.replicate 32 'm'),
      rotated plain.unicode
        (rotated plain.unicode Service.smallSettings ['b'] (List.replicate 32 'm')) ['c']
        (List.replicate 32 'n')].Pairwise (Preserves plain) := by
  apply (rotation_preserves plain plain_spaces _ ?_ ?_).mpr
  · intro settings member
    simp only [List.dropLast_cons_cons, List.dropLast_singleton, List.mem_cons, List.not_mem_nil,
      or_false] at member
    rcases member with rfl | rfl <;>
      exact ⟨by decide, by rintro last ⟨rfl⟩; decide⟩
  · apply List.isChain_cons_cons.mpr
    constructor
    · exact ⟨by decide, by rintro keys ⟨rfl⟩; decide, by decide, rfl⟩
    · apply List.isChain_cons_cons.mpr
      constructor
      · exact ⟨by decide, by rintro keys ⟨rfl⟩; decide, by decide, rfl⟩
      · exact .singleton _
  · rintro settings ⟨rfl⟩
    decide

def commaSettings : Settings :=
  { Service.smallSettings with secretKey := List.replicate 16 'k' ++ ',' :: List.replicate 16 'k' }

/-- Once rotated away it is refused, and the service with it. -/
theorem rotation_refused :
    ¬ ∀ chain : List Settings, chain.IsChain (Rotates plain.unicode) →
      (∀ settings ∈ chain.head?, settings.accepted plain.unicode = true) →
        chain.Pairwise (Preserves plain) := by
  intro preserved
  have pairs := preserved
    [commaSettings, rotated plain.unicode commaSettings ['b'] (List.replicate 32 'm')]
  have step := (List.pairwise_cons.mp (pairs ?_ ?_)).1 _ List.mem_cons_self
  · have refused : (rotated plain.unicode commaSettings ['b']
        (List.replicate 32 'm')).accepted plain.unicode = false := by decide
    rw [step.accepted] at refused
    cases refused
  · apply List.isChain_cons_cons.mpr
    constructor
    · exact ⟨by decide, by rintro keys ⟨rfl⟩; decide, by decide, rfl⟩
    · exact .singleton _
  · rintro settings ⟨rfl⟩
    decide

end SecureFileSystem.Rotation
