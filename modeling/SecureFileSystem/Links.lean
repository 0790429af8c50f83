import SecureFileSystem.Service
import SecureFileSystem.UuidText

/-!
Signed links. The payload is injective in its fields, so a tag vouches for one
link only; what `create_link` hands out is what `verify` accepts, until it
expires.
-/

namespace SecureFileSystem.Links

open Base Database Session Program Files Uuid UuidText TextCodec SecureFileSystem.Configuration Signing Routers
  Service

def AsciiLower (unicode : Unicode) : Prop :=
  ∀ text : Text, (∀ character ∈ text, character.toNat < 128) →
    unicode.lower text = text.map Char.toLower

/-- No two different messages have the same tag, under one key or two. -/
def TagsDistinct (platform : Platform) : Prop :=
  ∀ key other message text, platform.hmacSha256 key message = platform.hmacSha256 other text →
    message = text

theorem keyIdPattern_newline (kid : Text) (pattern : keyIdPattern kid = true) : '\n' ∉ kid := by
  intro member
  simp only [keyIdPattern, Bool.and_eq_true] at pattern
  have allowed := List.all_eq_true.mp pattern.2 '\n' member
  revert allowed
  decide

theorem uuidText_newline (id : Uuid) : '\n' ∉ uuidText id :=
  uuidText_absent id '\n' (by decide) fun printed =>
    (printed_facts '\n' printed).2.2.2.2.2.2.2.2.2.1 rfl

theorem decimal_newline (number : Nat) : '\n' ∉ decimal number := by
  intro member
  have digit := decimal_digits number '\n' member
  revert digit
  decide

theorem uuidText_injective : Function.Injective uuidText := by
  intro left right same
  have unicode : Unicode := ⟨fun _ => false, fun _ => none, id⟩
  have read := congrArg (uuidOf unicode) same
  rw [uuidOf_uuidText, uuidOf_uuidText] at read
  exact Option.some.inj read

/-- The newline-separated fields can be told apart. -/
theorem payload_injective {kid kid' : Text} {fileId fileId' : Uuid}
    {expires expires' linkVersion linkVersion' : Nat}
    (pattern : keyIdPattern kid = true) (pattern' : keyIdPattern kid' = true)
    (same : payload kid fileId expires linkVersion = payload kid' fileId' expires' linkVersion') :
    kid = kid' ∧ fileId = fileId' ∧ expires = expires' ∧ linkVersion = linkVersion' := by
  unfold payload at same
  have text := utf8_injective same
  generalize payloadPrefix = heading at text
  simp only [List.append_assoc, List.cons_append] at text
  have fields := (List.cons.inj (List.append_cancel_left text)).2
  obtain ⟨kids, tail⟩ := separated (keyIdPattern_newline kid pattern)
    (keyIdPattern_newline kid' pattern') fields
  obtain ⟨ids, numbers⟩ := separated (uuidText_newline fileId) (uuidText_newline fileId') tail
  obtain ⟨times, versions⟩ := separated (decimal_newline expires) (decimal_newline expires') numbers
  exact ⟨kids, uuidText_injective ids, decimal_injective times, decimal_injective versions⟩

/-- A signature is the signature of one link only. -/
theorem sign_injective {platform : Platform} (tags : TagsDistinct platform) {key key' : Text}
    {kid kid' : Text} {fileId fileId' : Uuid} {expires expires' linkVersion linkVersion' : Nat}
    (pattern : keyIdPattern kid = true) (pattern' : keyIdPattern kid' = true)
    (same : sign platform key kid fileId expires linkVersion =
      sign platform key' kid' fileId' expires' linkVersion') :
    kid = kid' ∧ fileId = fileId' ∧ expires = expires' ∧ linkVersion = linkVersion' :=
  payload_injective pattern pattern' (tags _ _ _ _ (unpadded_injective same))

theorem lower_uuidText {unicode : Unicode} (ascii : AsciiLower unicode) (id : Uuid) :
    unicode.lower (uuidText id) = uuidText id := by
  rw [ascii]
  · conv_rhs => rw [← List.map_id (uuidText id)]
    apply List.map_congr_left
    intro character member
    rcases uuidText_printed id character member with rfl | printed
    · decide
    · exact (printed_facts character printed).2.2.2.2.2.2.2.2.2.2.2.2
  · intro character member
    rcases uuidText_printed id character member with rfl | printed
    · decide
    · exact (printed_facts character printed).2.2.2.2.2.2.2.2.2.2.2.1

theorem digits_decimal (number : Nat) (small : number < 10 ^ 12) :
    digits (decimal number) = true := by
  have length := (decimal_length number 12 (by decide)).mpr small
  have some : 1 ≤ (decimal number).length := Nat.length_toDigits_pos
  simp only [digits, Bool.and_eq_true, decide_eq_true_eq, List.all_eq_true]
  exact ⟨⟨some, length⟩, decimal_digits number⟩

theorem verify_signed {platform : Platform} (ascii : AsciiLower platform.unicode) {keys : Keys}
    {key kid : Text} {fileId : Uuid} {expires linkVersion : Nat} (known : keys.lookup kid = some key)
    (expiresSmall : expires < 10 ^ 12) (versionSmall : linkVersion < 10 ^ 12) (now : Int) :
    verify platform keys (uuidText fileId) (some (decimal expires)) (some (decimal linkVersion))
      (some kid) (some (sign platform key kid fileId expires linkVersion)) now =
      if (expires : Int) ≤ now then .error .expired
      else .ok ⟨fileId, expires, linkVersion, kid⟩ := by
  simp only [verify, digits_decimal expires expiresSmall, digits_decimal linkVersion versionSmall,
    Bool.true_eq_false, or_self, if_false, known, uuidOf_uuidText, lower_uuidText ascii, ne_eq,
    not_true_eq_false, decimalValue_decimal]

theorem createLink_link {platform : Platform} {request : LinkRequest}
    {answer : (request : Op) → Res request} {out : LinkOut}
    (made : ((createLink platform request).eval answer).body = .link out) :
    ∃ file, (answer (.selectFiles (owned request.userId request.fileId))).head? = some file ∧
      0 ≤ request.ttlSeconds ∧
      (answer .now + request.ttlSeconds.toNat ≤ maxTimestamp) ∧
      out.fileId = uuidText file.id ∧ out.exp = decimal (answer .now + request.ttlSeconds.toNat) ∧
      out.v = decimal file.linkVersion ∧ out.kid = request.settings.secretKeyId ∧
      out.sig = sign platform request.settings.secretKey request.settings.secretKeyId file.id
        (answer .now + request.ttlSeconds.toNat) file.linkVersion := by
  have refused : ∀ status (text : Text), (⟨status, .detail text⟩ : Response).body ≠ .link out :=
    fun _ _ => nofun
  unfold createLink at made
  split at made
  · exact absurd made (refused _ _)
  split at made
  · exact absurd made (refused _ _)
  rename_i range
  rw [Decidable.not_not] at range
  have selected : (ownedFile request.userId request.fileId).eval answer =
      (answer (.selectFiles (owned request.userId request.fileId))).head? := rfl
  rw [Prog.bind_eq, Prog.eval_bind, selected] at made
  cases found : (answer (.selectFiles (owned request.userId request.fileId))).head? with
  | none =>
      rw [found] at made
      exact absurd made (refused _ _)
  | some file =>
      rw [found] at made
      change Response.body (Prog.eval answer (if _ then _ else _)) = _ at made
      split at made
      · exact absurd made (refused _ _)
      · rename_i small
        have link := Body.link.inj made
        subst link
        exact ⟨file, rfl, by omega, Nat.not_lt.mp small, rfl, rfl, rfl, rfl, rfl⟩

theorem lookup_set (keys : Keys) (kid key : Text) : (keys.set kid key).lookup kid = some key := by
  unfold Keys.set
  rw [List.lookup_append, List.lookup_eq_none_iff.mpr, Option.none_or, List.lookup_cons_self]
  intro entry member
  have other := (List.mem_filter.mp member).2
  simp only [decide_eq_true_eq] at other
  simpa using Ne.symm other

theorem set_pattern {keys : Keys} {kid key : Text}
    (held : ∀ entry ∈ keys, keyIdPattern entry.1 = true) (added : keyIdPattern kid = true) :
    ∀ entry ∈ keys.set kid key, keyIdPattern entry.1 = true := by
  intro entry member
  rcases List.mem_append.mp member with old | new
  · exact held entry (List.mem_filter.mp old).1
  · rw [List.mem_singleton.mp new]
    exact added

theorem parseEntries_pattern (entries : List Text) (keys parsed : Keys)
    (held : ∀ entry ∈ keys, keyIdPattern entry.1 = true)
    (answered : parseEntries keys entries = some parsed) :
    ∀ entry ∈ parsed, keyIdPattern entry.1 = true := by
  induction entries generalizing keys with
  | nil =>
      cases answered
      exact held
  | cons first rest ih =>
      obtain ⟨next, entered, parsedRest⟩ := Option.bind_eq_some_iff.mp answered
      refine ih next ?_ parsedRest
      unfold parseEntry at entered
      split at entered
      · cases entered
      split at entered
      · rename_i checked
        cases entered
        exact set_pattern held checked.1
      · cases entered

/-- An accepted configuration knows its own key, and only well-formed key ids. -/
theorem signingKeys_accepted {unicode : Unicode} {settings : Settings} {keys : Keys}
    (accepted : settings.accepted unicode = true) (parsed : settings.signingKeys unicode = some keys) :
    keys.lookup settings.secretKeyId = some settings.secretKey ∧
      ∀ entry ∈ keys, keyIdPattern entry.1 = true := by
  simp only [Settings.accepted, Bool.and_eq_true, decide_eq_true_eq] at accepted
  obtain ⟨retired, listed, rfl⟩ := Option.map_eq_some_iff.mp parsed
  have patterns := parseEntries_pattern _ [] retired (fun _ none => by cases none) listed
  exact ⟨lookup_set _ _ _, set_pattern patterns accepted.1.2.1⟩

/-- The presented strings spell this link: well-formed numbers with these values,
and the canonical text of this file id. -/
structure Presented (platform : Platform) (fileId exp v : Text) (id : Uuid)
    (expires linkVersion : Nat) : Prop where
  expDigits : digits exp = true
  vDigits : digits v = true
  expires : decimalValue exp = expires
  linkVersion : decimalValue v = linkVersion
  parsed : uuidOf platform.unicode fileId = some id
  canonical : platform.unicode.lower fileId = uuidText id

theorem presented_of_accepted {platform : Platform} {keys : Keys} {fileId exp v kid sig : Text}
    {now : Int} {claims : LinkClaims}
    (accepted : Accepted platform keys fileId exp v kid sig now claims) :
    Presented platform fileId exp v claims.fileId claims.expires claims.linkVersion where
  expDigits := accepted.expDigits
  vDigits := accepted.vDigits
  expires := accepted.expires.symm
  linkVersion := accepted.linkVersion.symm
  parsed := accepted.parsed
  canonical := accepted.canonical.symm

/-- Accepted settings hold their own key, links are complete and sound, and one
signature is good for one presented link. -/
structure Trustworthy (platform : Platform) : Prop where
  configured : ∀ (settings : Settings) (keys : Keys),
    settings.accepted platform.unicode = true →
    settings.signingKeys platform.unicode = some keys →
    keys.lookup settings.secretKeyId = some settings.secretKey ∧
      ∀ entry ∈ keys, keyIdPattern entry.1 = true
  complete : ∀ (request : LinkRequest) (answer : (request : Op) → Res request) (out : LinkOut),
    (∀ file ∈ answer (.selectFiles (owned request.userId request.fileId)),
      file.linkVersion ≤ maxInteger) →
    ((createLink platform request).eval answer).body = .link out →
    ∃ file ∈ answer (.selectFiles (owned request.userId request.fileId)), ∃ expires : Nat,
      (expires : Int) = answer .now + request.ttlSeconds ∧
      ∀ keys : Keys, keys.lookup request.settings.secretKeyId = some request.settings.secretKey →
      ∀ now : Int,
        (now < answer .now + request.ttlSeconds →
          verify platform keys out.fileId (some out.exp) (some out.v) (some out.kid) (some out.sig)
            now = .ok ⟨file.id, expires, file.linkVersion, request.settings.secretKeyId⟩) ∧
        (answer .now + request.ttlSeconds ≤ now →
          verify platform keys out.fileId (some out.exp) (some out.v) (some out.kid) (some out.sig)
            now = .error .expired)
  sound : ∀ (keys : Keys) (fileId exp v kid sig : Text) (now : Int) (claims : LinkClaims),
    verify platform keys fileId (some exp) (some v) (some kid) (some sig) now = .ok claims →
    ∃ key, keys.lookup kid = some key ∧ claims.kid = kid ∧
      sig = sign platform key kid claims.fileId claims.expires claims.linkVersion ∧
      Presented platform fileId exp v claims.fileId claims.expires claims.linkVersion ∧
      now < decimalValue exp
  exclusive : ∀ (keys : Keys) (fileId exp v kid : Text) (now : Int) (claims : LinkClaims)
    (key issued : Text) (id : Uuid) (expires linkVersion : Nat),
    (∀ entry ∈ keys, keyIdPattern entry.1 = true) → keyIdPattern issued = true →
    verify platform keys fileId (some exp) (some v) (some kid)
      (some (sign platform key issued id expires linkVersion)) now = .ok claims →
    kid = issued ∧ Presented platform fileId exp v id expires linkVersion ∧
      claims = ⟨id, expires, linkVersion, issued⟩

theorem links_trustworthy (platform : Platform) (ascii : AsciiLower platform.unicode)
    (tags : TagsDistinct platform) : Trustworthy platform := by
  refine ⟨fun _ _ => signingKeys_accepted, ?complete, ?sound, ?exclusive⟩
  case complete =>
    intro request answer out versions made
    obtain ⟨file, found, positive, represented, fileId, exp, v, kid, sig⟩ := createLink_link made
    have member := List.mem_of_mem_head? found
    have version := versions file member
    have time : ((answer .now + request.ttlSeconds.toNat : Nat) : Int) =
        answer .now + request.ttlSeconds := by omega
    -- The end of year 9999 has twelve digits, a version at most ten.
    have expiresSmall : answer .now + request.ttlSeconds.toNat < 10 ^ 12 :=
      lt_of_le_of_lt represented (by decide)
    have versionSmall : file.linkVersion < 10 ^ 12 := lt_of_le_of_lt version (by decide)
    refine ⟨file, member, _, time, fun keys known now => ?_⟩
    rw [fileId, exp, v, kid, sig, verify_signed ascii known expiresSmall versionSmall now, time]
    exact ⟨fun early => if_neg (Int.not_le.mpr early), fun late => if_pos late⟩
  case sound =>
    intro keys fileId exp v kid sig now claims answered
    obtain ⟨_, _, _, _, ⟨rfl⟩, ⟨rfl⟩, ⟨rfl⟩, ⟨rfl⟩, accepted⟩ := accepted_of_verify answered
    obtain ⟨key, known, signed⟩ := accepted.signed
    have live : now < decimalValue exp := accepted.expires ▸ accepted.live
    exact ⟨key, known, accepted.kid, utf8_injective signed, presented_of_accepted accepted, live⟩
  case exclusive =>
    intro keys fileId exp v kid now claims key issued id expires linkVersion patterns pattern
      answered
    obtain ⟨_, _, _, _, ⟨rfl⟩, ⟨rfl⟩, ⟨rfl⟩, ⟨rfl⟩, accepted⟩ := accepted_of_verify answered
    obtain ⟨held, known, signed⟩ := accepted.signed
    have listed : (kid, held) ∈ keys := by
      obtain ⟨before, after, split, -⟩ := List.lookup_eq_some_iff.mp known
      exact split ▸ List.mem_append_right before List.mem_cons_self
    obtain ⟨sameKid, sameId, sameExpires, sameVersion⟩ :=
      sign_injective tags pattern (patterns _ listed) (utf8_injective signed)
    have presented := presented_of_accepted accepted
    rw [← sameId, ← sameExpires, ← sameVersion] at presented
    refine ⟨sameKid.symm, presented, ?_⟩
    obtain ⟨claimedId, claimedExpires, claimedVersion, claimedKid⟩ := claims
    have claimed := accepted.kid
    simp only at sameId sameExpires sameVersion claimed
    rw [sameId, sameExpires, sameVersion, sameKid, claimed]

def smallAnswers : (request : Op) → Res request
  | .now => 40
  | .uuid4 => 0
  | .shuffle nodes => nodes
  | .selectFiles _ =>
      [⟨1, 9, ['f'], ['t'], 1, smallDigest, 1, 1, 1, .available, 0, none⟩]
  | .selectPlaced _ => []
  | .selectNodes _ => []
  | .commit _ => ()
  | .send _ => []
  | .await _ => []

theorem links_trustworthy_small : ∃ out : LinkOut,
    ((createLink plain ⟨smallSettings, 9, true, 1, 10, none⟩).eval smallAnswers).body = .link out ∧
    out.exp = ['5', '0'] ∧
    ∀ now : Int, now < 50 →
      verify plain [(['a'], List.replicate 32 'k')] out.fileId (some out.exp) (some out.v)
        (some out.kid) (some out.sig) now = .ok ⟨1, 50, 1, ['a']⟩ := by
  have trusted := links_trustworthy plain (fun _ _ => rfl) plain_hmacSha256
  refine ⟨_, rfl, by decide, fun now early => ?_⟩
  obtain ⟨file, member, expires, time, answers⟩ :=
    trusted.complete ⟨smallSettings, 9, true, 1, 10, none⟩ smallAnswers _ (by decide) rfl
  obtain rfl := List.mem_singleton.mp member
  obtain rfl : expires = 50 := Int.ofNat.inj time
  exact (answers [(['a'], List.replicate 32 'k')] (by decide) now).1 early

end SecureFileSystem.Links
