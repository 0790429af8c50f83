import SecureFileSystem.Storage
import SecureFileSystem.Uuid
import SecureFileSystem.TextCodec

/-!
`storage_node/router.py`: the handlers of a storage node. A header value is the
`str` decoded from its bytes as latin-1. Every request is answered as documented
exactly when no header takes a string primitive out of its domain.
-/

namespace SecureFileSystem.StorageNode

open Base Uuid TextCodec Storage

structure Library where
  sha256 : Bytes → Bytes
  /-- `repr` of a `str` -/
  repr : Text → Text
  unicode : Unicode

structure Settings where
  token : Text
  maxShardBytes : Nat

inductive Method where
  | put
  | get
  | delete
  deriving DecidableEq

structure Request where
  method : Method
  shardId : Text
  nodeToken : Option Bytes
  checksum : Option Bytes
  contentLength : Option Bytes
  chunks : List Bytes

inductive Body where
  | empty
  | detail (text : Text)
  /-- FastAPI's list of validation errors -/
  | missingHeader (name : Text)
  | stored (shardId checksum : Text) (size : Nat)
  | content (data : Bytes)
  deriving DecidableEq

structure Response where
  status : Nat
  headers : List (Text × Text)
  body : Body
  deriving DecidableEq

/-- An `HTTPException` carries the response; nothing catches the others. -/
inductive Raised where
  | http (response : Response)
  | typeError
  | valueError
  | osError
  deriving DecidableEq

def httpException (status : Nat) (detail : Text) : Raised := .http ⟨status, [], .detail detail⟩

def latin1 (header : Bytes) : Text := header.map fun byte => Char.ofNat byte.toNat

/-- `str.lower` on one latin-1 character -/
def lowerByte (byte : UInt8) : UInt8 :=
  if (65 ≤ byte ∧ byte ≤ 90) ∨ (192 ≤ byte ∧ byte ≤ 222 ∧ byte ≠ 215) then byte + 32 else byte

def ascii (text : Text) : Bool := text.all (·.toNat < 128)

/-- `hmac.compare_digest` on two `str` -/
def compareDigest (left right : Text) : Except Raised Bool :=
  if ascii left && ascii right then .ok (left = right) else .error .typeError

/-- `str.isdigit` on one latin-1 character: ASCII digits and superscripts -/
def digitByte (byte : UInt8) : Bool :=
  decide (48 ≤ byte ∧ byte ≤ 57) || byte ∈ [178, 179, 185]

def isdigit (header : Bytes) : Bool := header ≠ [] && header.all digitByte

/-- `sys.int_info.default_max_str_digits` -/
def maxStrDigits : Nat := 4300

def intOf (header : Bytes) : Except Raised Nat :=
  if (∀ byte ∈ header, 48 ≤ byte ∧ byte ≤ 57) ∧ header.length ≤ maxStrDigits then
    .ok (decimalValue (latin1 header))
  else .error .valueError

def hex (bytes : Bytes) : Text := bytes.flatMap fun byte => hexText 2 byte.toNat

def sha256Hex (library : Library) (data : Bytes) : Text := hex (library.sha256 data)

/-- Accept only a canonical UUID; the error is the text of the `ValueError`. -/
def validateShardId (library : Library) (shardId : Text) : Except Text Uuid :=
  match uuidOf library.unicode shardId with
  | none => .error ("invalid shard_id: ".toList ++ library.repr shardId)
  | some canonical =>
      if uuidText canonical ≠ library.unicode.lower shardId then
        .error ("shard_id must be a canonical UUID: ".toList ++ library.repr shardId)
      else .ok canonical

def requireNodeToken (settings : Settings) (nodeToken : Option Bytes) : Except Raised Unit :=
  match nodeToken with
  | none => .error (httpException 401 "invalid node token".toList)
  | some token => do
      if ← compareDigest (latin1 token) settings.token then return ()
      else throw (httpException 401 "invalid node token".toList)

def validShardId (library : Library) (shardId : Text) : Except Raised Uuid :=
  match validateShardId library shardId with
  | .error text => .error (httpException 400 text)
  | .ok canonical => .ok canonical

def tooLarge : Raised := httpException 413 "shard too large".toList

/-- The `async for` over the stream, with what it has received so far. -/
def readChunks (limit : Nat) : Nat → Bytes → List Bytes → Except Raised Bytes
  | _, collected, [] => .ok collected
  | received, collected, chunk :: rest =>
      if limit < received + chunk.length then .error tooLarge
      else readChunks limit (received + chunk.length) (collected ++ chunk) rest

def readBodyCapped (limit : Nat) (declared : Option Bytes) (chunks : List Bytes) :
    Except Raised Bytes := do
  match declared with
  | none => readChunks limit 0 [] chunks
  | some declared =>
      if isdigit declared then
        let size ← intOf declared
        if limit < size then throw tooLarge
        else readChunks limit 0 [] chunks
      else readChunks limit 0 [] chunks

def checksumHeader : Text := "X-Checksum-Sha256".toList
def shardStatusHeader : Text := "X-Shard-Status".toList

/-- `put_shard` up to the write. -/
def checkBody (library : Library) (settings : Settings) (request : Request) (checksum : Bytes) :
    Except Raised Bytes := do
  let data ← readBodyCapped settings.maxShardBytes request.contentLength request.chunks
  if data = [] then throw (httpException 400 "empty shard body".toList)
  else if ← compareDigest (sha256Hex library data) (latin1 (checksum.map lowerByte)) then return data
  else throw (httpException 400 "checksum mismatch in transit".toList)

def putShard (library : Library) (settings : Settings) (caller : Nat) (request : Request)
    (id : Uuid) (disk : Disk) : Except Raised Response × Disk :=
  match request.checksum with
  | none => (.error (.http ⟨422, [], .missingHeader checksumHeader⟩), disk)
  | some checksum =>
      match checkBody library settings request checksum with
      | .error raised => (.error raised, disk)
      | .ok data =>
          match alone caller (writeShard library.sha256 disk.levels id data) disk with
          | (.ok digest, after) =>
              (.ok ⟨201, [], .stored (uuidText id) (hex digest) data.length⟩, after)
          | (.error .shardExists, after) =>
              (.error (httpException 409 "shard already exists".toList), after)
          | (.error _, after) => (.error .osError, after)

def getShard (library : Library) (caller : Nat) (id : Uuid) (disk : Disk) :
    Except Raised Response × Disk :=
  match alone caller (readShard library.sha256 id) disk with
  | (.ok data, after) => (.ok ⟨200, [(checksumHeader, sha256Hex library data)], .content data⟩, after)
  | (.error .shardCorrupted, after) =>
      (.error (.http ⟨500, [(shardStatusHeader, "corrupt".toList)],
        .detail "shard checksum mismatch".toList⟩), after)
  | (.error .shardNotFound, after) => (.error (httpException 404 "shard not found".toList), after)
  | (.error _, after) => (.error .osError, after)

def deleteShardEndpoint (caller : Nat) (id : Uuid) (disk : Disk) :
    Except Raised Response × Disk :=
  match alone caller (deleteShard id) disk with
  | (true, after) => (.ok ⟨204, [], .empty⟩, after)
  | (false, after) => (.error (httpException 404 "shard not found".toList), after)

/-- The dependencies of a handler: first the token, then the id. -/
def dependencies (library : Library) (settings : Settings) (request : Request) : Except Raised Uuid := do
  requireNodeToken settings request.nodeToken
  validShardId library request.shardId

def handle (library : Library) (settings : Settings) (caller : Nat) (request : Request)
    (disk : Disk) : Except Raised Response × Disk :=
  match dependencies library settings request with
  | .error raised => (.error raised, disk)
  | .ok id =>
      match request.method with
      | .put => putShard library settings caller request id disk
      | .get => getShard library caller id disk
      | .delete => deleteShardEndpoint caller id disk

/-- What the caller gets; `none` is an exception that nothing handled. -/
def answered : Except Raised Response → Option Response
  | .ok response => some response
  | .error (.http response) => some response
  | .error _ => none

def Authorised (settings : Settings) (request : Request) : Prop :=
  request.nodeToken.map latin1 = some settings.token

instance (settings : Settings) (request : Request) : Decidable (Authorised settings request) :=
  inferInstanceAs (Decidable (_ = _))

def TokenReadable (settings : Settings) (request : Request) : Prop :=
  ∀ token ∈ request.nodeToken, ascii (latin1 token) = true ∧ ascii settings.token = true

def Canonical (library : Library) (shardId : Text) (id : Uuid) : Prop :=
  uuidOf library.unicode shardId = some id ∧ uuidText id = library.unicode.lower shardId

def Decimal (header : Bytes) : Prop := ∀ byte ∈ header, 48 ≤ byte ∧ byte ≤ 57

instance (header : Bytes) : Decidable (Decimal header) :=
  inferInstanceAs (Decidable (∀ byte ∈ header, 48 ≤ byte ∧ byte ≤ 57))

/-- `int` takes a declared size that `isdigit` lets through. -/
def LengthReadable (request : Request) : Prop :=
  ∀ declared ∈ request.contentLength, isdigit declared = true →
    Decimal declared ∧ declared.length ≤ maxStrDigits

def body (request : Request) : Bytes := request.chunks.flatten

def Oversized (settings : Settings) (request : Request) : Prop :=
  settings.maxShardBytes < (body request).length ∨
    ∃ declared ∈ request.contentLength, declared ≠ [] ∧ Decimal declared ∧
      settings.maxShardBytes < decimalValue (latin1 declared)

theorem requireNodeToken_readable (settings : Settings) (request : Request)
    (readable : TokenReadable settings request) :
    (Authorised settings request → requireNodeToken settings request.nodeToken = .ok ()) ∧
      (¬ Authorised settings request →
        requireNodeToken settings request.nodeToken =
          .error (httpException 401 "invalid node token".toList)) := by
  unfold Authorised requireNodeToken
  cases given : request.nodeToken with
  | none =>
      constructor
      · nofun
      · exact fun _ => rfl
  | some token =>
      obtain ⟨header, configured⟩ := readable token given
      by_cases same : latin1 token = settings.token
      · simp [compareDigest, configured, same, bind, Except.bind, pure, Except.pure]
      · simp [compareDigest, header, configured, same, bind, Except.bind, throw, throwThe,
          MonadExceptOf.throw]

theorem requireNodeToken_unreadable (settings : Settings) (request : Request)
    (unreadable : ¬ TokenReadable settings request) :
    requireNodeToken settings request.nodeToken = .error .typeError := by
  unfold TokenReadable at unreadable
  push Not at unreadable
  obtain ⟨token, given, apart⟩ := unreadable
  rw [Option.mem_def.mp given]
  have refused : (ascii (latin1 token) && ascii settings.token) = false := by
    by_cases header : ascii (latin1 token) = true
    · simp [apart header]
    · simp [header]
  simp [requireNodeToken, compareDigest, refused, bind, Except.bind]

theorem validateShardId_canonical (library : Library) (shardId : Text) (id : Uuid) :
    Canonical library shardId id ↔ validateShardId library shardId = .ok id := by
  unfold Canonical validateShardId
  cases uuidOf library.unicode shardId with
  | none => simp
  | some parsed =>
      by_cases same : uuidText parsed = library.unicode.lower shardId
      · simp only [Option.some.injEq, same, ne_eq, not_true_eq_false, if_false, Except.ok.injEq]
        constructor
        · exact fun both => both.1
        · rintro rfl
          exact ⟨rfl, same⟩
      · simp only [Option.some.injEq, same, ne_eq, not_false_eq_true, if_true, reduceCtorEq,
          iff_false]
        rintro ⟨rfl, equal⟩
        exact same equal

theorem validShardId_canonical (library : Library) (shardId : Text) (id : Uuid) :
    Canonical library shardId id ↔ validShardId library shardId = .ok id := by
  rw [validateShardId_canonical]
  unfold validShardId
  cases validateShardId library shardId <;> simp

theorem validShardId_refused (library : Library) (shardId : Text)
    (refused : ∀ id, ¬ Canonical library shardId id) :
    ∃ text, validShardId library shardId = .error (httpException 400 text) := by
  have outcome : ∀ id, validShardId library shardId ≠ .ok id := fun id same =>
    refused id ((validShardId_canonical library shardId id).mpr same)
  unfold validShardId at outcome ⊢
  cases checked : validateShardId library shardId with
  | ok id =>
      rw [checked] at outcome
      exact absurd rfl (outcome id)
  | error text => exact ⟨text, rfl⟩

theorem readChunks_total (limit received : Nat) (collected : Bytes) (chunks : List Bytes)
    (within : received ≤ limit) :
    readChunks limit received collected chunks =
      if limit < received + chunks.flatten.length then .error tooLarge
      else .ok (collected ++ chunks.flatten) := by
  induction chunks generalizing received collected with
  | nil => simp [readChunks, Nat.not_lt.mpr within]
  | cons chunk rest ih =>
      unfold readChunks
      by_cases exceeds : limit < received + chunk.length
      · have total : limit < received + (chunk :: rest).flatten.length := by
          simp only [List.flatten_cons, List.length_append]
          omega
        rw [if_pos exceeds, if_pos total]
      · rw [if_neg exceeds, ih _ _ (Nat.not_lt.mp exceeds)]
        simp [Nat.add_assoc]

theorem isdigit_decimal (header : Bytes) (decimal : Decimal header) (some_digit : header ≠ []) :
    isdigit header = true := by
  have digits : ∀ byte ∈ header, digitByte byte = true := by
    intro byte member
    simp [digitByte, decimal byte member]
  simpa [isdigit, some_digit] using digits

theorem intOf_decimal (header : Bytes) (decimal : Decimal header)
    (short : header.length ≤ maxStrDigits) :
    intOf header = .ok (decimalValue (latin1 header)) := if_pos ⟨decimal, short⟩

/-- The body, capped, when the declared size can be read. -/
theorem readBodyCapped_readable (settings : Settings) (request : Request)
    (readable : LengthReadable request) :
    (Oversized settings request →
      readBodyCapped settings.maxShardBytes request.contentLength request.chunks =
        .error tooLarge) ∧
    (¬ Oversized settings request →
      readBodyCapped settings.maxShardBytes request.contentLength request.chunks =
        .ok (body request)) := by
  have chunks := readChunks_total settings.maxShardBytes 0 [] request.chunks (Nat.zero_le _)
  simp only [Nat.zero_add, List.nil_append] at chunks
  unfold Oversized readBodyCapped body
  cases given : request.contentLength with
  | none => simp [chunks]
  | some declared =>
      dsimp only
      by_cases digits : isdigit declared = true
      · obtain ⟨decimal, short⟩ := readable declared given digits
        have nonempty : declared ≠ [] := by
          rintro rfl
          simp [isdigit] at digits
        rw [if_pos digits, intOf_decimal declared decimal short]
        simp only [bind, Except.bind, Option.mem_def, Option.some.injEq, exists_eq_left', nonempty,
          ne_eq, not_false_eq_true, decimal, true_and]
        by_cases exceeds : settings.maxShardBytes < decimalValue (latin1 declared)
        · simp [exceeds, throw, throwThe, MonadExceptOf.throw]
        · simp [exceeds, chunks]
      · rw [if_neg digits]
        have other : ¬ (declared ≠ [] ∧ Decimal declared) := fun both =>
          digits (isdigit_decimal declared both.2 both.1)
        simp only [Option.mem_def, Option.some.injEq, exists_eq_left', chunks]
        by_cases exceeds : settings.maxShardBytes < request.chunks.flatten.length
        · rw [if_pos exceeds]
          exact ⟨fun _ => rfl, fun within => absurd (Or.inl exceeds) within⟩
        · rw [if_neg exceeds]
          constructor
          · rintro (received | declares)
            · exact absurd received exceeds
            · exact absurd ⟨declares.1, declares.2.1⟩ other
          · exact fun _ => rfl

theorem readBodyCapped_unreadable (settings : Settings) (request : Request)
    (unreadable : ¬ LengthReadable request) :
    readBodyCapped settings.maxShardBytes request.contentLength request.chunks =
      .error .valueError := by
  unfold LengthReadable at unreadable
  simp only [not_forall] at unreadable
  obtain ⟨declared, given, digits, unread⟩ := unreadable
  have refused : intOf declared = .error .valueError := if_neg unread
  rw [Option.mem_def.mp given]
  simp [readBodyCapped, digits, refused, bind, Except.bind]

theorem ascii_hex (bytes : Bytes) : ascii (hex bytes) = true := by
  have digits : ∀ value < 16, (hexDigit value).toNat < 128 := by decide
  apply List.all_eq_true.mpr
  intro character member
  obtain ⟨byte, -, inside⟩ := List.mem_flatMap.mp member
  simp only [hexText, List.nil_append, List.mem_append, List.mem_singleton] at inside
  rcases inside with rfl | rfl
  · exact decide_eq_true (digits _ (Nat.mod_lt _ (by decide)))
  · exact decide_eq_true (digits _ (Nat.mod_lt _ (by decide)))

theorem ascii_lower (header : Bytes) :
    ascii (latin1 (header.map lowerByte)) = ascii (latin1 header) := by
  have bytes : ∀ value < 256, decide ((lowerByte (UInt8.ofNat value)).toNat < 128) =
      decide ((UInt8.ofNat value).toNat < 128) := by decide +kernel
  have same : ∀ byte : UInt8, decide ((Char.ofNat (lowerByte byte).toNat).toNat < 128) =
      decide ((Char.ofNat byte.toNat).toNat < 128) := by
    intro byte
    have value := bytes byte.toNat byte.toNat_lt
    rw [UInt8.ofNat_toNat] at value
    have small : ∀ other : UInt8, other.toNat < 0xd800 := by
      intro other
      have bound := other.toNat_lt
      omega
    rw [toNat_ofNat _ (small _), toNat_ofNat _ (small _), value]
  simp only [ascii, latin1, List.map_map, List.all_map]
  congr 1
  funext byte
  exact same byte

def Matches (library : Library) (request : Request) (checksum : Bytes) : Prop :=
  sha256Hex library (body request) = latin1 (checksum.map lowerByte)

instance (library : Library) (request : Request) (checksum : Bytes) :
    Decidable (Matches library request checksum) := inferInstanceAs (Decidable (_ = _))

theorem checkBody_readable (library : Library) (settings : Settings) (request : Request)
    (checksum : Bytes) (readable : LengthReadable request) :
    (Oversized settings request →
      checkBody library settings request checksum = .error tooLarge) ∧
    (¬ Oversized settings request → body request = [] →
      checkBody library settings request checksum =
        .error (httpException 400 "empty shard body".toList)) ∧
    (¬ Oversized settings request → body request ≠ [] → ascii (latin1 checksum) = false →
      checkBody library settings request checksum = .error .typeError) ∧
    (¬ Oversized settings request → body request ≠ [] → ascii (latin1 checksum) = true →
      (Matches library request checksum →
        checkBody library settings request checksum = .ok (body request)) ∧
      (¬ Matches library request checksum →
        checkBody library settings request checksum =
          .error (httpException 400 "checksum mismatch in transit".toList))) := by
  obtain ⟨exceeds, within⟩ := readBodyCapped_readable settings request readable
  have digest : ascii (sha256Hex library (body request)) = true := ascii_hex _
  unfold checkBody Matches
  refine ⟨fun large => ?_, fun fits empty => ?_, fun fits data foreign => ?_,
    fun fits data plain => ⟨fun same => ?_, fun differs => ?_⟩⟩
  · rw [exceeds large]
    rfl
  · rw [within fits]
    simp [bind, Except.bind, empty, throw, throwThe, MonadExceptOf.throw]
  · rw [within fits]
    simp [bind, Except.bind, data, compareDigest, ascii_lower, foreign]
  · rw [within fits]
    simp [bind, Except.bind, data, compareDigest, ascii_lower, plain, same, pure, Except.pure]
  · rw [within fits]
    simp [bind, Except.bind, data, compareDigest, digest, ascii_lower, plain, differs, throw,
      throwThe, MonadExceptOf.throw]

theorem checkBody_unreadable (library : Library) (settings : Settings) (request : Request)
    (checksum : Bytes) (unreadable : ¬ LengthReadable request) :
    checkBody library settings request checksum = .error .valueError := by
  unfold checkBody
  rw [readBodyCapped_unreadable settings request unreadable]
  rfl

/-- Refused with this status, and nothing stored or removed. -/
def Refused (result : Except Raised Response × Disk) (disk : Disk) (status : Nat) : Prop :=
  (∃ response, answered result.1 = some response ∧ response.status = status) ∧
    result.2.shard = disk.shard

/-- What the documentation promises for an authorised PUT. -/
structure PutDocumented (library : Library) (settings : Settings) (request : Request) (id : Uuid)
    (disk : Disk) (result : Except Raised Response × Disk) : Prop where
  unlabelled : request.checksum = none → Refused result disk 422
  oversized : ∀ checksum ∈ request.checksum, Oversized settings request → Refused result disk 413
  damaged : ∀ checksum ∈ request.checksum, ¬ Oversized settings request →
    (body request = [] ∨ ¬ Matches library request checksum) → Refused result disk 400
  taken : ∀ checksum ∈ request.checksum, ¬ Oversized settings request → body request ≠ [] →
    Matches library request checksum → disk.shard id ≠ none → Refused result disk 409
  stored : ∀ checksum ∈ request.checksum, ¬ Oversized settings request → body request ≠ [] →
    Matches library request checksum → disk.shard id = none →
      answered result.1 = some ⟨201, [], .stored (uuidText id)
        (sha256Hex library (body request)) (body request).length⟩ ∧
      result.2.shard =
        Function.update disk.shard id (some (shardFile library.sha256 (body request)))

structure GetDocumented (library : Library) (id : Uuid) (disk : Disk)
    (result : Except Raised Response × Disk) : Prop where
  unchanged : result.2.shard = disk.shard
  missing : disk.shard id = none → Refused result disk 404
  found : ∀ data, disk.shard id = some (shardFile library.sha256 data) →
    answered result.1 =
      some ⟨200, [(checksumHeader, sha256Hex library data)], .content data⟩
  corrupt : ∀ raw, disk.shard id = some raw → (∀ data, raw ≠ shardFile library.sha256 data) →
    answered result.1 = some ⟨500, [(shardStatusHeader, "corrupt".toList)],
      .detail "shard checksum mismatch".toList⟩

structure DeleteDocumented (id : Uuid) (disk : Disk) (result : Except Raised Response × Disk) :
    Prop where
  missing : disk.shard id = none → Refused result disk 404
  removed : disk.shard id ≠ none → answered result.1 = some ⟨204, [], .empty⟩ ∧
    result.2.shard = Function.update disk.shard id none

/-- The documented answer to every request, with its effect on the store. -/
structure Documented (library : Library) (settings : Settings) (request : Request) (disk : Disk)
    (result : Except Raised Response × Disk) : Prop where
  unauthorised : ¬ Authorised settings request → Refused result disk 401
  malformed : Authorised settings request →
    (∀ id, ¬ Canonical library request.shardId id) → Refused result disk 400
  put : ∀ id, Authorised settings request → Canonical library request.shardId id →
    request.method = .put → PutDocumented library settings request id disk result
  get : ∀ id, Authorised settings request → Canonical library request.shardId id →
    request.method = .get → GetDocumented library id disk result
  delete : ∀ id, Authorised settings request → Canonical library request.shardId id →
    request.method = .delete → DeleteDocumented id disk result

/-- No header takes `compare_digest` or `int` out of its domain. -/
structure Answerable (library : Library) (settings : Settings) (request : Request) : Prop where
  token : TokenReadable settings request
  length : ∀ id, Authorised settings request → Canonical library request.shardId id →
    request.method = .put → request.checksum ≠ none → LengthReadable request
  checksum : ∀ id, Authorised settings request → Canonical library request.shardId id →
    request.method = .put → ∀ checksum ∈ request.checksum, ¬ Oversized settings request →
      body request ≠ [] → ascii (latin1 checksum) = true

section Handler

variable (library : Library) (settings : Settings) (caller : Nat) (request : Request) (disk : Disk)

theorem handle_unreadable (unreadable : ¬ TokenReadable settings request) :
    handle library settings caller request disk = (.error .typeError, disk) := by
  simp [handle, dependencies, requireNodeToken_unreadable settings request unreadable, bind, Except.bind]

theorem handle_unauthorised (readable : TokenReadable settings request)
    (refused : ¬ Authorised settings request) :
    handle library settings caller request disk =
      (.error (httpException 401 "invalid node token".toList), disk) := by
  simp [handle, dependencies, (requireNodeToken_readable settings request readable).2 refused, bind,
    Except.bind]

theorem handle_malformed (readable : TokenReadable settings request)
    (authorised : Authorised settings request)
    (malformed : ∀ id, ¬ Canonical library request.shardId id) :
    ∃ text, handle library settings caller request disk =
      (.error (httpException 400 text), disk) := by
  obtain ⟨text, refused⟩ := validShardId_refused library request.shardId malformed
  refine ⟨text, ?_⟩
  simp [handle, dependencies, (requireNodeToken_readable settings request readable).1 authorised, refused,
    bind, Except.bind]

theorem handle_admitted (id : Uuid) (readable : TokenReadable settings request)
    (authorised : Authorised settings request)
    (canonical : Canonical library request.shardId id) :
    handle library settings caller request disk =
      match request.method with
      | .put => putShard library settings caller request id disk
      | .get => getShard library caller id disk
      | .delete => deleteShardEndpoint caller id disk := by
  have checkedId := (validShardId_canonical library request.shardId id).mp canonical
  simp [handle, dependencies, (requireNodeToken_readable settings request readable).1 authorised,
    checkedId, bind, Except.bind]

theorem getShard_documented (digests : ∀ data, (library.sha256 data).length = digestSize)
    (id : Uuid) : GetDocumented library id disk (getShard library caller id disk) := by
  have taken : ∀ data, (shardFile library.sha256 data).take digestSize = library.sha256 data :=
    fun data => List.take_left' (digests data)
  have dropped : ∀ data, (shardFile library.sha256 data).drop digestSize = data :=
    fun data => List.drop_left' (digests data)
  obtain ⟨answer, unchanged⟩ := readShard_alone library.sha256 caller id disk
  unfold getShard
  generalize alone caller (readShard library.sha256 id) disk = outcome at answer unchanged
  obtain ⟨out, after⟩ := outcome
  dsimp only at answer unchanged
  cases held : disk.shard id with
  | none =>
      obtain rfl : out = _ := by rw [answer, held]
      constructor
      · exact unchanged
      · exact fun _ => ⟨⟨_, rfl, rfl⟩, unchanged⟩
      · exact fun data found => by cases held.symm.trans found
      · exact fun raw found => by cases held.symm.trans found
  | some raw =>
      rw [held] at answer
      unfold checked at answer
      dsimp only at answer
      -- The node believes the digest in the file, even of bytes that were not uploaded.
      by_cases damaged : (raw.take digestSize).length ≠ digestSize ∨
          library.sha256 (raw.drop digestSize) ≠ raw.take digestSize
      · obtain rfl : out = .error .shardCorrupted := by rw [answer, if_pos damaged]
        constructor
        · exact unchanged
        · exact fun missing => by cases held.symm.trans missing
        · intro data found
          obtain rfl := Option.some.inj (held.symm.trans found)
          rw [taken, dropped] at damaged
          exact absurd damaged (by simp [digests])
        · exact fun _ _ _ => rfl
      · obtain rfl : out = .ok (raw.drop digestSize) := by rw [answer, if_neg damaged]
        rw [not_or, Decidable.not_not, Decidable.not_not] at damaged
        have whole : raw = shardFile library.sha256 (raw.drop digestSize) := by
          unfold shardFile
          rw [damaged.2, List.take_append_drop]
        constructor
        · exact unchanged
        · exact fun missing => by cases held.symm.trans missing
        · intro data found
          obtain rfl := Option.some.inj (held.symm.trans found)
          rw [dropped]
          rfl
        · intro other found foreign
          obtain rfl := Option.some.inj (held.symm.trans found)
          exact absurd whole (foreign _)

theorem deleteShard_documented (id : Uuid) :
    DeleteDocumented id disk (deleteShardEndpoint caller id disk) := by
  obtain ⟨answer, effect⟩ := deleteShard_alone caller id disk
  unfold deleteShardEndpoint
  generalize alone caller (deleteShard id) disk = outcome at answer effect
  obtain ⟨out, after⟩ := outcome
  dsimp only at answer effect
  cases held : disk.shard id with
  | none =>
      obtain rfl : out = false := by rw [answer, held]; rfl
      constructor
      · intro _
        rw [← held, Function.update_eq_self] at effect
        exact ⟨⟨_, rfl, rfl⟩, effect⟩
      · exact fun present => absurd held present
  | some raw =>
      obtain rfl : out = true := by rw [answer, held]; rfl
      constructor
      · exact fun missing => by cases held.symm.trans missing
      · exact fun _ => ⟨rfl, effect⟩

theorem putShard_documented (id : Uuid) (valid : disk.Valid)
    (length : request.checksum ≠ none → LengthReadable request)
    (plain : ∀ checksum ∈ request.checksum, ¬ Oversized settings request → body request ≠ [] →
      ascii (latin1 checksum) = true) :
    PutDocumented library settings request id disk
      (putShard library settings caller request id disk) := by
  unfold putShard
  -- Without the header the body is not even read.
  cases given : request.checksum with
  | none =>
      constructor
      · exact fun _ => ⟨⟨_, rfl, rfl⟩, rfl⟩
      all_goals
        rintro checksum member
        rw [given] at member
        cases member
  | some checksum =>
      dsimp only
      have readable := length (by simp [given])
      obtain ⟨exceeds, empty, -, checksums⟩ :=
        checkBody_readable library settings request checksum readable
      obtain ⟨absent, present⟩ := writeShard_alone library.sha256 caller id (body request) disk valid
      constructor
      · intro missing
        cases given.symm.trans missing
      · intro _ _ large
        rw [exceeds large]
        exact ⟨⟨_, rfl, rfl⟩, rfl⟩
      · rintro other member fits bad
        obtain rfl : checksum = other := Option.some.inj (given.symm.trans member)
        by_cases data : body request = []
        · rw [empty fits data]
          exact ⟨⟨_, rfl, rfl⟩, rfl⟩
        · have differs := bad.resolve_left data
          rw [(checksums fits data (plain checksum given fits data)).2 differs]
          exact ⟨⟨_, rfl, rfl⟩, rfl⟩
      · rintro other member fits data same held
        obtain rfl : checksum = other := Option.some.inj (given.symm.trans member)
        rw [(checksums fits data (plain checksum given fits data)).1 same]
        obtain ⟨out, kept⟩ := present held
        dsimp only
        generalize alone caller (writeShard library.sha256 disk.levels id (body request)) disk =
          outcome at out kept ⊢
        obtain ⟨result, after⟩ := outcome
        obtain rfl : result = _ := out
        exact ⟨⟨_, rfl, rfl⟩, kept⟩
      · rintro other member fits data same free
        obtain rfl : checksum = other := Option.some.inj (given.symm.trans member)
        rw [(checksums fits data (plain checksum given fits data)).1 same]
        obtain ⟨out, kept⟩ := absent free
        dsimp only
        generalize alone caller (writeShard library.sha256 disk.levels id (body request)) disk =
          outcome at out kept ⊢
        obtain ⟨result, after⟩ := outcome
        obtain rfl : result = _ := out
        exact ⟨rfl, kept⟩

theorem documented_answered (result : Except Raised Response × Disk)
    (documented : Documented library settings request disk result) : answered result.1 ≠ none := by
  have refused : ∀ status, Refused result disk status → answered result.1 ≠ none := by
    rintro status ⟨⟨response, given, -⟩, -⟩ nothing
    cases given.symm.trans nothing
  have exactly : ∀ response, answered result.1 = some response → answered result.1 ≠ none := by
    intro response given nothing
    cases given.symm.trans nothing
  by_cases authorised : Authorised settings request
  · by_cases canonical : ∃ id, Canonical library request.shardId id
    · obtain ⟨id, canonical⟩ := canonical
      cases method : request.method with
      | put =>
          have put := documented.put id authorised canonical method
          cases given : request.checksum with
          | none => exact refused 422 (put.unlabelled given)
          | some checksum =>
              by_cases large : Oversized settings request
              · exact refused 413 (put.oversized checksum given large)
              · by_cases bad : body request = [] ∨ ¬ Matches library request checksum
                · exact refused 400 (put.damaged checksum given large bad)
                · rw [not_or, not_not] at bad
                  by_cases free : disk.shard id = none
                  · exact exactly _ (put.stored checksum given large bad.1 bad.2 free).1
                  · exact refused 409 (put.taken checksum given large bad.1 bad.2 free)
      | get =>
          have get := documented.get id authorised canonical method
          cases held : disk.shard id with
          | none => exact refused 404 (get.missing held)
          | some raw =>
              by_cases whole : ∃ data, raw = shardFile library.sha256 data
              · obtain ⟨data, rfl⟩ := whole
                exact exactly _ (get.found data held)
              · exact exactly _ (get.corrupt raw held fun data same => whole ⟨data, same⟩)
      | delete =>
          have delete := documented.delete id authorised canonical method
          by_cases held : disk.shard id = none
          · exact refused 404 (delete.missing held)
          · exact exactly _ (delete.removed held).1
    · exact refused 400 (documented.malformed authorised fun id same => canonical ⟨id, same⟩)
  · exact refused 401 (documented.unauthorised authorised)

theorem answerable_documented (digests : ∀ data, (library.sha256 data).length = digestSize)
    (valid : disk.Valid) (answerable : Answerable library settings request) :
    Documented library settings request disk
      (handle library settings caller request disk) := by
  have readable := answerable.token
  constructor
  · intro refused
    rw [handle_unauthorised library settings caller request disk readable refused]
    exact ⟨⟨_, rfl, rfl⟩, rfl⟩
  · intro authorised malformed
    obtain ⟨text, same⟩ :=
      handle_malformed library settings caller request disk readable authorised malformed
    rw [same]
    exact ⟨⟨_, rfl, rfl⟩, rfl⟩
  · intro id authorised canonical method
    rw [handle_admitted library settings caller request disk id readable authorised canonical,
      method]
    exact putShard_documented library settings caller request disk id valid
      (answerable.length id authorised canonical method)
      (answerable.checksum id authorised canonical method)
  · intro id authorised canonical method
    rw [handle_admitted library settings caller request disk id readable authorised canonical,
      method]
    exact getShard_documented library caller disk digests id
  · intro id authorised canonical method
    rw [handle_admitted library settings caller request disk id readable authorised canonical,
      method]
    exact deleteShard_documented caller disk id

theorem answered_answerable
    (given : answered (handle library settings caller request disk).1 ≠ none) :
    Answerable library settings request := by
  have token : TokenReadable settings request := by
    by_contra unreadable
    rw [handle_unreadable library settings caller request disk unreadable] at given
    exact given rfl
  constructor
  · exact token
  · intro id authorised canonical method labelled
    by_contra unreadable
    rw [handle_admitted library settings caller request disk id token authorised canonical,
      method] at given
    obtain ⟨checksum, label⟩ := Option.ne_none_iff_exists'.mp labelled
    simp only [putShard, label,
      checkBody_unreadable library settings request checksum unreadable] at given
    exact given rfl
  · intro id authorised canonical method checksum label fits data
    by_contra foreign
    rw [handle_admitted library settings caller request disk id token authorised canonical,
      method] at given
    rw [Bool.not_eq_true] at foreign
    by_cases readable : LengthReadable request
    · have raises := (checkBody_readable library settings request checksum readable).2.2.1 fits data
        foreign
      simp only [putShard, Option.mem_def.mp label, raises] at given
      exact given rfl
    · simp only [putShard, Option.mem_def.mp label,
        checkBody_unreadable library settings request checksum readable] at given
      exact given rfl

/-- A node gives the documented answer, with the documented effect, exactly
when it can read the headers. -/
theorem handle_documented (digests : ∀ data, (library.sha256 data).length = digestSize)
    (valid : disk.Valid) :
    Documented library settings request disk (handle library settings caller request disk) ↔
      Answerable library settings request := by
  constructor
  · intro documented
    exact answered_answerable library settings caller request disk
      (documented_answered library settings request disk _ documented)
  · exact answerable_documented library settings caller request disk digests valid

theorem dependencies_canonical {id : Uuid} (passed : dependencies library settings request = .ok id) :
    Canonical library request.shardId id := by
  unfold dependencies at passed
  cases token : requireNodeToken settings request.nodeToken with
  | error raised =>
      rw [token] at passed
      cases passed
  | ok _ =>
      rw [token] at passed
      exact (validShardId_canonical library request.shardId id).mpr passed

theorem putShard_disk (id : Uuid) :
    (putShard library settings caller request id disk).2 = disk ∨
      ∃ data, (putShard library settings caller request id disk).2 =
        (alone caller (writeShard library.sha256 disk.levels id data) disk).2 := by
  unfold putShard
  cases request.checksum with
  | none => exact Or.inl rfl
  | some checksum =>
      dsimp only
      cases checkBody library settings request checksum with
      | error raised => exact Or.inl rfl
      | ok data =>
          refine Or.inr ⟨data, ?_⟩
          dsimp only
          split <;> simp_all

/-- A request touches no other shard than the one it names, and leaves the disk valid. -/
theorem handle_frame (valid : disk.Valid) :
    (handle library settings caller request disk).2.Valid ∧
      ∀ other, ¬ Canonical library request.shardId other →
        (handle library settings caller request disk).2.shard other = disk.shard other := by
  unfold handle
  cases passed : dependencies library settings request with
  | error raised => exact ⟨valid, fun _ _ => rfl⟩
  | ok id =>
      have canonical := dependencies_canonical library settings request passed
      have apart : ∀ other, ¬ Canonical library request.shardId other → other ≠ id := by
        rintro other foreign rfl
        exact foreign canonical
      dsimp only
      cases request.method with
      | put =>
          rcases putShard_disk library settings caller request disk id with same | ⟨data, same⟩
          · dsimp only
            rw [same]
            exact ⟨valid, fun _ _ => rfl⟩
          · dsimp only
            rw [same]
            refine ⟨alone_valid (writeShard_inside _ _ id data) valid, fun other foreign => ?_⟩
            obtain ⟨absent, present⟩ := writeShard_alone library.sha256 caller id data disk valid
            by_cases free : disk.shard id = none
            · rw [(absent free).2, Function.update_of_ne (apart other foreign)]
            · rw [(present free).2]
      | get =>
          have same : (getShard library caller id disk).2 =
              (alone caller (readShard library.sha256 id) disk).2 := by
            unfold getShard
            split <;> simp_all
          dsimp only
          rw [same]
          refine ⟨alone_valid (readShard_inside library.sha256 disk.levels id) valid, ?_⟩
          exact fun other _ => by rw [(readShard_alone library.sha256 caller id disk).2]
      | delete =>
          have same : (deleteShardEndpoint caller id disk).2 =
              (alone caller (deleteShard id) disk).2 := by
            unfold deleteShardEndpoint
            split <;> simp_all
          dsimp only
          rw [same]
          refine ⟨alone_valid (deleteShard_inside disk.levels id) valid, fun other foreign => ?_⟩
          rw [(deleteShard_alone caller id disk).2, Function.update_of_ne (apart other foreign)]

end Handler

/-- The SHA-256 digest of the byte 7, and zeros for anything else. -/
def smallLibrary : Library where
  sha256 data :=
    if data = [7] then
      [0xca, 0x35, 0x87, 0x58, 0xf6, 0xd2, 0x7e, 0x6c, 0xf4, 0x52, 0x72, 0x93, 0x79, 0x77, 0xa7,
        0x48, 0xfd, 0x88, 0x39, 0x1d, 0xb6, 0x79, 0xce, 0xda, 0x7d, 0xc7, 0xbf, 0x1f, 0x00, 0x5e,
        0xe8, 0x79]
    else List.replicate 32 0
  repr text := '\'' :: text ++ ['\'']
  unicode := plain.unicode

def smallSettings : Settings := ⟨List.replicate 32 'k', 100⟩

def emptyDisk : Disk := ⟨1, 1, 1, [], fun _ => none, fun _ => [], []⟩

theorem emptyDisk_valid : emptyDisk.Valid :=
  ⟨Nat.le_refl _, nofun, fun _ _ => rfl, fun missing => absurd missing (Nat.lt_irrefl _)⟩

def smallPut : Request where
  method := .put
  shardId := uuidText 1
  nodeToken := some (List.replicate 32 107)
  checksum := some (smallDigest.map fun character => UInt8.ofNat character.toNat)
  contentLength := some [49]
  chunks := [[], [7]]

theorem smallLibrary_digests (data : Bytes) : (smallLibrary.sha256 data).length = digestSize := by
  unfold smallLibrary
  dsimp only
  split <;> rfl

theorem handle_documented_small :
    (handle smallLibrary smallSettings 0 smallPut emptyDisk).2.shard 1 =
      some (shardFile smallLibrary.sha256 [7]) := by
  have fits : ¬ Oversized smallSettings smallPut := by
    rintro (received | ⟨declared, given, -, -, long⟩)
    · exact absurd received (by decide)
    · cases given
      exact absurd long (by decide)
  have answerable : Answerable smallLibrary smallSettings smallPut := by
    constructor
    · rintro token ⟨rfl⟩
      decide
    · rintro _ _ _ _ _ declared ⟨rfl⟩ _
      exact ⟨by decide +kernel, by decide⟩
    · rintro _ _ _ _ checksum ⟨rfl⟩ _ _
      decide
  have documented := (handle_documented smallLibrary smallSettings 0 smallPut emptyDisk
    smallLibrary_digests emptyDisk_valid).mpr answerable
  have put := documented.put 1 (by decide) ⟨by decide +kernel, by decide⟩ rfl
  have stored := put.stored _ rfl fits (by decide) (by decide) rfl
  rw [stored.2, Function.update_self]
  rfl

/-- A token with one letter outside ASCII is not refused: it raises. -/
theorem handle_undocumented :
    ¬ ∀ (library : Library) (settings : Settings) (caller : Nat) (request : Request) (disk : Disk),
      (∀ data, (library.sha256 data).length = digestSize) → disk.Valid →
        Documented library settings request disk
          (handle library settings caller request disk) := by
  intro always
  have documented := always smallLibrary smallSettings 0 { smallPut with nodeToken := some [0xe9] }
    emptyDisk smallLibrary_digests emptyDisk_valid
  obtain ⟨⟨response, given, -⟩, -⟩ := documented.unauthorised (by decide)
  have raises : answered (handle smallLibrary smallSettings 0
      { smallPut with nodeToken := some [0xe9] } emptyDisk).1 = none := by decide +kernel
  cases raises.symm.trans given

end SecureFileSystem.StorageNode
