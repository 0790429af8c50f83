import SecureFileSystem.Configuration
import SecureFileSystem.TextCodec

/-!
`services/signing.py`: stateless signed download links.
-/

namespace SecureFileSystem.Signing

open Base Uuid SecureFileSystem.Configuration TextCodec

inductive InvalidLinkError where
  | missingParameter
  | malformedParameter
  | unknownKeyId
  | malformedFileId
  | nonCanonicalFileId
  | badSignature
  | expired
  deriving DecidableEq

structure LinkClaims where
  fileId : Uuid
  expires : Nat
  linkVersion : Nat
  kid : Text
  deriving DecidableEq

/-- `[0-9]{1,12}`, matched against the whole text -/
def digits (text : Text) : Bool :=
  decide (1 ≤ text.length ∧ text.length ≤ 12) && text.all (·.isDigit)

def payloadPrefix : Text := "sfs-download-v1".toList

def payload (kid : Text) (fileId : Uuid) (expires linkVersion : Nat) : Bytes :=
  utf8 (payloadPrefix ++ '\n' :: kid ++ '\n' :: uuidText fileId ++ '\n' :: decimal expires ++
    '\n' :: decimal linkVersion)

def sign (platform : Platform) (key kid : Text) (fileId : Uuid) (expires linkVersion : Nat) :
    Text :=
  let digest := platform.hmacSha256 (utf8 key) (payload kid fileId expires linkVersion)
  stripPadding (urlsafeB64Encode digest)

def verify (platform : Platform) (keys : Keys) (fileId : Text) (exp v kid sig : Option Text)
    (now : Int) : Except InvalidLinkError LinkClaims :=
  match exp, v, kid, sig with
  | some exp, some v, some kid, some sig =>
      if digits exp = false ∨ digits v = false then .error .malformedParameter
      else match keys.lookup kid with
        | none => .error .unknownKeyId
        | some key =>
            match uuidOf platform.unicode fileId with
            | none => .error .malformedFileId
            | some parsedId =>
                if uuidText parsedId ≠ platform.unicode.lower fileId then
                  .error .nonCanonicalFileId
                else
                  let expires := decimalValue exp
                  let linkVersion := decimalValue v
                  if utf8 sig ≠ utf8 (sign platform key kid parsedId expires linkVersion) then
                    .error .badSignature
                  else if (expires : Int) ≤ now then .error .expired
                  else .ok ⟨parsedId, expires, linkVersion, kid⟩
  | _, _, _, _ => .error .missingParameter

/-- What `verify` has checked of the parameters when it returns these claims. -/
structure Accepted (platform : Platform) (keys : Keys) (fileId exp v kid sig : Text) (now : Int)
    (claims : LinkClaims) : Prop where
  expDigits : digits exp = true
  vDigits : digits v = true
  signed : ∃ key, keys.lookup kid = some key ∧ utf8 sig =
    utf8 (sign platform key kid claims.fileId claims.expires claims.linkVersion)
  parsed : uuidOf platform.unicode fileId = some claims.fileId
  canonical : uuidText claims.fileId = platform.unicode.lower fileId
  expires : claims.expires = decimalValue exp
  linkVersion : claims.linkVersion = decimalValue v
  kid : claims.kid = kid
  live : now < claims.expires

theorem verify_of_accepted {platform : Platform} {keys : Keys} {fileId exp v kid sig : Text}
    {now : Int} {claims : LinkClaims}
    (accepted : Accepted platform keys fileId exp v kid sig now claims) :
    verify platform keys fileId (some exp) (some v) (some kid) (some sig) now = .ok claims := by
  obtain ⟨parsedId, expires, linkVersion, name⟩ := claims
  obtain ⟨expDigits, vDigits, ⟨key, known, signed⟩, parsed, canonical, sameExp, sameV, sameKid,
    live⟩ := accepted
  subst sameExp sameV sameKid
  simp only [verify, expDigits, vDigits, Bool.true_eq_false, or_self, if_false, known, parsed,
    canonical, ne_eq, not_true_eq_false, signed]
  exact if_neg (Int.not_le.mpr live)

/-- The checks of `verify`, read back from its answer. -/
theorem accepted_of_verify {platform : Platform} {keys : Keys} {fileId : Text}
    {exp v kid sig : Option Text} {now : Int} {claims : LinkClaims}
    (answered : verify platform keys fileId exp v kid sig now = .ok claims) :
    ∃ expText vText kidText sigText, exp = some expText ∧ v = some vText ∧ kid = some kidText ∧
      sig = some sigText ∧
      Accepted platform keys fileId expText vText kidText sigText now claims := by
  unfold verify at answered
  split at answered
  · rename_i expText vText kidText sigText
    refine ⟨expText, vText, kidText, sigText, rfl, rfl, rfl, rfl, ?_⟩
    split at answered
    · cases answered
    rename_i wellFormed
    rw [not_or, Bool.not_eq_false, Bool.not_eq_false] at wellFormed
    split at answered
    · cases answered
    rename_i key known
    split at answered
    · cases answered
    rename_i parsedId parsed
    split at answered
    · cases answered
    rename_i canonical
    dsimp only at answered
    split at answered
    · cases answered
    rename_i signed
    split at answered
    · cases answered
    rename_i live
    cases answered
    exact ⟨wellFormed.1, wellFormed.2, ⟨key, known, Decidable.of_not_not signed⟩, parsed,
      Decidable.of_not_not canonical, rfl, rfl, rfl, Int.not_le.mp live⟩
  · cases answered

end SecureFileSystem.Signing
