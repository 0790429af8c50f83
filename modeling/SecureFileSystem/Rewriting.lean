import SecureFileSystem.Links

/-!
Rewriting a signed link. A signature vouches for the values in a link, and for
their spelling only where a value has one spelling: a number of fewer than
twelve digits has another one, with a leading zero.
-/

namespace SecureFileSystem.Rewriting

open Base Uuid UuidText TextCodec SecureFileSystem.Configuration Signing Links

theorem separated_last {Symbol : Type} {separator : Symbol} {left right rest others : List Symbol}
    (inLeft : separator ∉ rest) (inRight : separator ∉ others)
    (same : left ++ separator :: rest = right ++ separator :: others) :
    left = right ∧ rest = others := by
  have reversed := congrArg List.reverse same
  simp only [List.reverse_append, List.reverse_cons, List.append_assoc, List.singleton_append]
    at reversed
  obtain ⟨ends, starts⟩ := separated (by simpa using inLeft) (by simpa using inRight) reversed
  exact ⟨List.reverse_injective starts, List.reverse_injective ends⟩

/-- The fields can be told apart from the end, whatever the key id is. -/
theorem payload_fields {kid kid' : Text} {fileId fileId' : Uuid}
    {expires expires' linkVersion linkVersion' : Nat}
    (same : payload kid fileId expires linkVersion = payload kid' fileId' expires' linkVersion') :
    kid = kid' ∧ fileId = fileId' ∧ expires = expires' ∧ linkVersion = linkVersion' := by
  unfold payload at same
  have text := utf8_injective same
  obtain ⟨head, versions⟩ :=
    separated_last (decimal_newline linkVersion) (decimal_newline linkVersion') text
  obtain ⟨head, times⟩ := separated_last (decimal_newline expires) (decimal_newline expires') head
  obtain ⟨head, ids⟩ := separated_last (uuidText_newline fileId) (uuidText_newline fileId') head
  have kids := (List.cons.inj (List.append_cancel_left head)).2
  exact ⟨kids, uuidText_injective ids, decimal_injective times, decimal_injective versions⟩

theorem decimalValue_append (text : Text) (last : Char) :
    decimalValue (text ++ [last]) = decimalValue text * 10 + (last.toNat - 48) := by
  simp [decimalValue, Nat.ofDigitChars, Nat.mul_comm]

theorem decimalValue_cons (first : Char) (rest : Text) :
    decimalValue (first :: rest) = 10 ^ rest.length * (first.toNat - 48) + decimalValue rest := by
  unfold decimalValue
  rw [Nat.ofDigitChars_cons, Nat.ofDigitChars_eq_ofDigitChars_zero, Nat.mul_zero, Nat.zero_add]
  rfl

theorem isDigit_range {character : Char} (digit : character.isDigit = true) :
    48 ≤ character.toNat ∧ character.toNat ≤ 57 := by
  simp only [Char.isDigit, Bool.and_eq_true, decide_eq_true_eq, ge_iff_le,
    UInt32.le_iff_toNat_le] at digit
  exact digit

theorem decimalValue_cancel {left right : Text} (length : left.length = right.length)
    (leftDigits : ∀ character ∈ left, character.isDigit = true)
    (rightDigits : ∀ character ∈ right, character.isDigit = true)
    (same : decimalValue left = decimalValue right) : left = right := by
  induction left using List.reverseRecOn generalizing right with
  | nil => exact (List.length_eq_zero_iff.mp length.symm).symm
  | append_singleton left last ih =>
      obtain rfl | ⟨right, other, rfl⟩ := List.eq_nil_or_concat right
      · simp at length
      · simp only [List.concat_eq_append, List.length_append, List.length_singleton,
          Nat.add_right_cancel_iff] at length rightDigits same ⊢
        rw [decimalValue_append, decimalValue_append] at same
        have lastRange := isDigit_range (leftDigits last (by simp))
        have otherRange := isDigit_range (rightDigits other (by simp))
        have front := ih length (fun character member => leftDigits character (by simp [member]))
          (fun character member => rightDigits character (by simp [member])) (by omega)
        have final : last = other := Char.toNat_inj.mp (by omega)
        rw [front, final]

theorem decimalValue_bound (text : Text) (all : ∀ character ∈ text, character.isDigit = true) :
    decimalValue text < 10 ^ text.length := by
  induction text using List.reverseRecOn with
  | nil => decide
  | append_singleton text last ih =>
      have front := ih fun character member => all character (by simp [member])
      have range := isDigit_range (all last (by simp))
      rw [decimalValue_append, List.length_append, List.length_singleton, Nat.pow_succ]
      omega

theorem digits_iff {text : Text} : digits text = true ↔
    (1 ≤ text.length ∧ text.length ≤ 12) ∧ ∀ character ∈ text, character.isDigit = true := by
  simp [digits]

/-- Twelve digits are needed: nothing else of the pattern is the same number. -/
theorem spelling_unique {text other : Text} (spelled : digits text = true)
    (respelled : digits other = true) (large : 10 ^ 11 ≤ decimalValue text)
    (same : decimalValue other = decimalValue text) : other = text := by
  obtain ⟨⟨-, short⟩, textDigits⟩ := digits_iff.mp spelled
  obtain ⟨⟨-, otherShort⟩, otherDigits⟩ := digits_iff.mp respelled
  have whole : ∀ {text : Text}, (∀ character ∈ text, character.isDigit = true) →
      text.length ≤ 12 → 10 ^ 11 ≤ decimalValue text → text.length = 12 := by
    intro text all short large
    have bound := lt_of_le_of_lt large (decimalValue_bound text all)
    have long := (Nat.pow_lt_pow_iff_right (by decide)).mp bound
    omega
  apply decimalValue_cancel ?_ otherDigits textDigits same
  rw [whole otherDigits otherShort (same ▸ large), whole textDigits short large]

theorem spelling_other {text : Text} (spelled : digits text = true)
    (small : decimalValue text < 10 ^ 11) :
    ∃ other, other ≠ text ∧ digits other = true ∧ decimalValue other = decimalValue text := by
  obtain ⟨⟨some, short⟩, all⟩ := digits_iff.mp spelled
  by_cases room : text.length < 12
  · refine ⟨'0' :: text, by simp, digits_iff.mpr ⟨?_, ?_⟩, ?_⟩
    · rw [List.length_cons]
      omega
    · intro character member
      rcases List.mem_cons.mp member with rfl | rest
      · decide
      · exact all character rest
    · rw [decimalValue_cons]
      simp
  · cases text with
    | nil => simp at some
    | cons first rest =>
        have length : rest.length = 11 := by
          rw [List.length_cons] at room short
          omega
        rw [decimalValue_cons, length] at small
        have range := isDigit_range (all first List.mem_cons_self)
        have zero : first.toNat - 48 = 0 := by omega
        refine ⟨rest, by simp, digits_iff.mpr ⟨by omega, fun character member =>
          all character (List.mem_cons_of_mem _ member)⟩, ?_⟩
        rw [decimalValue_cons, zero]
        simp

/-- No rewriting of an accepted link is accepted: not under its signature, and
not under another one. -/
structure Fixed (platform : Platform) (keys : Keys) (fileId exp v kid sig : Text) (now : Int) :
    Prop where
  rewritten : ∀ otherId otherExp otherV otherKid,
    (platform.unicode.lower otherId ≠ platform.unicode.lower fileId ∨ otherExp ≠ exp ∨
      otherV ≠ v ∨ otherKid ≠ kid) →
    ∃ error, verify platform keys otherId (some otherExp) (some otherV) (some otherKid) (some sig)
      now = .error error
  resigned : ∀ otherSig, otherSig ≠ sig →
    ∃ error, verify platform keys fileId (some exp) (some v) (some kid) (some otherSig) now =
      .error error

section Accepted
variable {platform : Platform} {keys : Keys} {fileId exp v kid sig : Text} {now : Int}
  {claims : LinkClaims}

theorem refused_unless {otherId otherExp otherV otherKid otherSig : Text}
    (apart : ∀ other, ¬ Accepted platform keys otherId otherExp otherV otherKid otherSig now other) :
    ∃ error, verify platform keys otherId (some otherExp) (some otherV) (some otherKid)
      (some otherSig) now = .error error := by
  cases answered : verify platform keys otherId (some otherExp) (some otherV) (some otherKid)
      (some otherSig) now with
  | error error => exact ⟨error, rfl⟩
  | ok other =>
      obtain ⟨_, _, _, _, ⟨rfl⟩, ⟨rfl⟩, ⟨rfl⟩, ⟨rfl⟩, accepted⟩ := accepted_of_verify answered
      exact absurd accepted (apart other)

theorem accepted_same {otherId otherExp otherV otherKid : Text} {other : LinkClaims}
    (tags : TagsDistinct platform)
    (accepted : Accepted platform keys fileId exp v kid sig now claims)
    (rewritten : Accepted platform keys otherId otherExp otherV otherKid sig now other) :
    otherKid = kid ∧ other.fileId = claims.fileId ∧ decimalValue otherExp = decimalValue exp ∧
      decimalValue otherV = decimalValue v := by
  obtain ⟨key, -, signed⟩ := accepted.signed
  obtain ⟨otherKey, -, resigned⟩ := rewritten.signed
  have sigs := utf8_injective (resigned.symm.trans signed)
  obtain ⟨kids, ids, times, versions⟩ := payload_fields (tags _ _ _ _ (unpadded_injective sigs))
  rw [rewritten.expires, accepted.expires] at times
  rw [rewritten.linkVersion, accepted.linkVersion] at versions
  exact ⟨kids, ids, times, versions⟩

/-- An accepted link is fixed exactly if neither number has room for a leading zero. -/
theorem rewriting_refused (platform : Platform) (tags : TagsDistinct platform) (keys : Keys)
    (fileId exp v kid sig : Text) (now : Int) (claims : LinkClaims)
    (answered : verify platform keys fileId (some exp) (some v) (some kid) (some sig) now =
      .ok claims) :
    Fixed platform keys fileId exp v kid sig now ↔
      10 ^ 11 ≤ decimalValue exp ∧ 10 ^ 11 ≤ decimalValue v := by
  obtain ⟨_, _, _, _, ⟨rfl⟩, ⟨rfl⟩, ⟨rfl⟩, ⟨rfl⟩, accepted⟩ := accepted_of_verify answered
  constructor
  · intro fixed
    constructor
    -- Below 10 ^ 11 the number can also be written with one leading zero more or less.
    · by_contra small
      obtain ⟨other, different, spelled, same⟩ :=
        spelling_other accepted.expDigits (Nat.not_le.mp small)
      obtain ⟨error, refused⟩ := fixed.rewritten fileId other v kid (Or.inr (Or.inl different))
      have still : Accepted platform keys fileId other v kid sig now claims :=
        { accepted with expDigits := spelled, expires := accepted.expires.trans same.symm }
      rw [verify_of_accepted still] at refused
      cases refused
    · by_contra small
      obtain ⟨other, different, spelled, same⟩ :=
        spelling_other accepted.vDigits (Nat.not_le.mp small)
      obtain ⟨error, refused⟩ :=
        fixed.rewritten fileId exp other kid (Or.inr (Or.inr (Or.inl different)))
      have still : Accepted platform keys fileId exp other kid sig now claims :=
        { accepted with vDigits := spelled, linkVersion := accepted.linkVersion.trans same.symm }
      rw [verify_of_accepted still] at refused
      cases refused
  · rintro ⟨largeExp, largeV⟩
    constructor
    · intro otherId otherExp otherV otherKid different
      apply refused_unless
      intro other rewritten
      obtain ⟨kids, ids, times, versions⟩ := accepted_same tags accepted rewritten
      rcases different with id | exp | v | kid
      · rw [← rewritten.canonical, ← accepted.canonical, ids] at id
        exact id rfl
      · exact exp (spelling_unique accepted.expDigits rewritten.expDigits largeExp times)
      · exact v (spelling_unique accepted.vDigits rewritten.vDigits largeV versions)
      · exact kid kids
    · intro otherSig different
      apply refused_unless
      intro other resigned
      obtain ⟨key, known, signed⟩ := accepted.signed
      obtain ⟨otherKey, otherKnown, otherSigned⟩ := resigned.signed
      obtain rfl := Option.some.inj (known.symm.trans otherKnown)
      have ids : other.fileId = claims.fileId :=
        Option.some.inj (resigned.parsed.symm.trans accepted.parsed)
      rw [ids, resigned.expires, resigned.linkVersion, ← accepted.expires, ← accepted.linkVersion,
        ← signed] at otherSigned
      exact different (utf8_injective otherSigned)

end Accepted

def smallKeys : Keys := [(['a'], List.replicate 32 'k')]

theorem small_accepted (exp v : Text) (expDigits : digits exp = true) (vDigits : digits v = true)
    (live : (0 : Int) < decimalValue exp) : Accepted plain smallKeys (uuidText 1) exp v ['a']
      (sign plain (List.replicate 32 'k') ['a'] 1 (decimalValue exp) (decimalValue v)) 0
      ⟨1, decimalValue exp, decimalValue v, ['a']⟩ :=
  ⟨expDigits, vDigits, ⟨List.replicate 32 'k', rfl, rfl⟩, uuidOf_uuidText _ _,
    (lower_uuidText (fun _ _ => rfl) 1).symm, rfl, rfl, rfl, live⟩

theorem rewriting_refused_long :
    Fixed plain smallKeys (uuidText 1) ('1' :: List.replicate 11 '0') ('1' :: List.replicate 11 '0')
      ['a'] (sign plain (List.replicate 32 'k') ['a'] 1
        (decimalValue ('1' :: List.replicate 11 '0')) (decimalValue ('1' :: List.replicate 11 '0'))) 0 :=
  (rewriting_refused plain plain_hmacSha256 smallKeys _ _ _ _ _ 0 _ (verify_of_accepted
    (small_accepted _ _ (by decide) (by decide) (by decide)))).mpr ⟨by decide, by decide⟩

/-- A link until second 50, and the same link with `exp=050`. -/
theorem rewriting_accepted : ¬ ∀ (platform : Platform), TagsDistinct platform →
    ∀ keys fileId exp v kid sig now claims,
      verify platform keys fileId (some exp) (some v) (some kid) (some sig) now = .ok claims →
        Fixed platform keys fileId exp v kid sig now := by
  intro every
  have fixed := every plain plain_hmacSha256 smallKeys _ _ _ _ _ 0 _ (verify_of_accepted
    (small_accepted ['5', '0'] ['1'] (by decide) (by decide) (by decide)))
  obtain ⟨error, refused⟩ :=
    fixed.rewritten (uuidText 1) ['0', '5', '0'] ['1'] ['a'] (Or.inr (Or.inl (by decide)))
  have accepted := verify_of_accepted
    (small_accepted ['0', '5', '0'] ['1'] (by decide) (by decide) (by decide))
  have same : decimalValue ['0', '5', '0'] = decimalValue ['5', '0'] := by decide
  rw [same] at accepted
  rw [accepted] at refused
  cases refused

end SecureFileSystem.Rewriting
