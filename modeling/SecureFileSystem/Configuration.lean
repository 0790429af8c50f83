import SecureFileSystem.Uuid

/-!
`config.py` of the API service: the settings the modelled code reads, their
ranges, and the signing keys.
-/

namespace SecureFileSystem.Configuration

open Base Uuid

def maxTotalShards : Nat := 256
def minSecretLength : Nat := 32

structure Settings where
  secretKey : Text
  secretKeyId : Text
  /-- retired keys, `"kid:key,kid:key"` -/
  previousSecretKeys : Text
  shardDataCount : Nat
  shardParityCount : Nat
  maxUploadBytes : Nat
  minTtlSeconds : Nat
  maxTtlSeconds : Nat
  nodeFailureThreshold : Nat
  staleUploadSeconds : Nat
  repairGraceSeconds : Nat
  scrubBatchSize : Nat

def keyIdPattern (kid : Text) : Bool :=
  decide (1 ≤ kid.length ∧ kid.length ≤ 32) &&
    kid.all fun character => character.isAlphanum || character = '_' || character = '-'

/-- Python `dict[str, str]`; keys are distinct. -/
abbrev Keys := List (Text × Text)

def Keys.set (keys : Keys) (kid key : Text) : Keys :=
  keys.filter (·.1 ≠ kid) ++ [(kid, key)]

/-- `text.partition(":")`, `none` when there is no colon -/
def partition (text : Text) : Option (Text × Text) :=
  match text.dropWhile (· ≠ ':') with
  | [] => none
  | _ :: key => some (text.takeWhile (· ≠ ':'), key)

def parseEntry (keys : Keys) (entry : Text) : Option Keys :=
  match partition entry with
  | none => none
  | some (kid, key) =>
      if keyIdPattern kid = true ∧ minSecretLength ≤ key.length ∧ kid ∉ keys.map (·.1) then
        some (keys.set kid key)
      else none

def parseEntries : Keys → List Text → Option Keys
  | keys, [] => some keys
  | keys, entry :: rest => (parseEntry keys entry).bind fun next => parseEntries next rest

/-- `_parse_key_list`; `none` is the `ValueError`. -/
def parseKeyList (unicode : Unicode) (raw : Text) : Option Keys :=
  parseEntries [] (((raw.splitOn ',').map (strip unicode.isSpace)).filter (· ≠ []))

namespace Settings

def signingKeys (unicode : Unicode) (settings : Settings) : Option Keys :=
  (parseKeyList unicode settings.previousSecretKeys).map fun keys =>
    keys.set settings.secretKeyId settings.secretKey

/-- The field constraints and `_check_ranges`. -/
def accepted (unicode : Unicode) (settings : Settings) : Bool :=
  decide (minSecretLength ≤ settings.secretKey.length ∧
    keyIdPattern settings.secretKeyId = true ∧
    1 ≤ settings.shardDataCount ∧ 1 ≤ settings.shardParityCount ∧
    0 < settings.maxUploadBytes ∧ 1 ≤ settings.minTtlSeconds ∧ 1 ≤ settings.maxTtlSeconds ∧
    1 ≤ settings.nodeFailureThreshold ∧ 60 ≤ settings.staleUploadSeconds ∧
    settings.shardDataCount + settings.shardParityCount ≤ maxTotalShards ∧
    settings.minTtlSeconds ≤ settings.maxTtlSeconds) &&
  match parseKeyList unicode settings.previousSecretKeys with
  | none => false
  | some keys => decide (settings.secretKeyId ∉ keys.map (·.1))

end Settings

end SecureFileSystem.Configuration
