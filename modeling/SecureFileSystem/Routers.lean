import SecureFileSystem.Files
import SecureFileSystem.Signing

/-!
The request handlers of `routers/files.py` and `routers/download.py`. A handler
starts where its dependencies have run: the caller is authenticated, the rate
limiter has answered, and a transfer slot is held where one is needed. An
exception that no handler catches is a 500.
-/

namespace SecureFileSystem.Routers

open Base Database Session Erasure Files Uuid SecureFileSystem.Configuration Signing TextCodec Program

/-- The query parameters of a signed URL, the file id in its path. -/
structure LinkOut where
  fileId : Text
  exp : Text
  v : Text
  kid : Text
  sig : Text
  expiresAt : Nat
  deriving DecidableEq

inductive Body where
  | empty
  | detail (text : Text)
  | fileOut (file : File) (availability : Availability)
  | fileList (items : List (File × Availability)) (limit offset : Nat)
  | link (out : LinkOut)
  | content (data : Bytes) (filename : Text)
  deriving DecidableEq

structure Response where
  status : Nat
  body : Body
  deriving DecidableEq

def httpException (status : Nat) (detail : String) : Response := ⟨status, .detail detail.toList⟩

def ttlOutOfRange (settings : Settings) : Response :=
  ⟨422, .detail ("ttl_seconds must be between ".toList ++ decimal settings.minTtlSeconds ++
    " and ".toList ++ decimal settings.maxTtlSeconds)⟩

def internalError : Response := httpException 500 "Internal Server Error"

def rateLimited : Response := httpException 429 "rate limit exceeded"

def fileOut (file : File) (availabilities : List (Uuid × Availability)) : File × Availability :=
  (file, (availabilities.lookup file.id).getD ⟨.unavailable, 0, 0, 0⟩)

/-- Another user's file is indistinguishable from a missing one. -/
def owned (userId fileId : Uuid) (_ : Db) (file : File) : Bool :=
  file.id = fileId && file.ownerUserId = userId && file.status = .available

def ownedFile (userId fileId : Uuid) : Async (Option File) := do
  let rows ← selectFiles (owned userId fileId)
  return rows.head?

def fileNotFound : Response := httpException 404 "file not found"

structure UploadRequest where
  settings : Settings
  userId : Uuid
  rateAllowed : Bool
  /-- the `file` field of the form: sanitized name, content type, bytes -/
  upload : Option (Text × Text × Bytes)
  ipAddress : Option Text

def uploadFile (platform : Platform) (request : UploadRequest) : Async Response := do
  let began ← now
  if request.rateAllowed = false then return rateLimited
  else match request.upload with
    | none => return httpException 422 "multipart field 'file' required"
    | some (filename, contentType, data) =>
        if request.settings.maxUploadBytes < data.length then
          return httpException 413 "file too large"
        else if data = [] then return httpException 400 "file is empty"
        else
          match ← Files.uploadFile platform began
              { ownerId := request.userId, filename, contentType, data,
                k := request.settings.shardDataCount, m := request.settings.shardParityCount,
                ipAddress := request.ipAddress } with
          | .error .insufficientNodes =>
              return httpException 503 "not enough healthy storage nodes"
          | .error .uploadFailed => return httpException 502 "storage write failed, retry"
          | .error _ => return internalError
          | .ok file =>
              match ← getFile file.id with
              | none => return internalError
              | some refreshed =>
                  let states ← availability [refreshed]
                  let out := fileOut refreshed states
                  return ⟨201, .fileOut out.1 out.2⟩

/-- `ORDER BY uploaded_at DESC, id` -/
def newerFirst (left right : File) : Bool :=
  decide (right.uploadedAt < left.uploadedAt) ||
    (decide (left.uploadedAt = right.uploadedAt) && decide (left.id.toNat ≤ right.id.toNat))

def listFiles (userId : Uuid) (limit offset : Nat) : Async Response := do
  let rows ← selectFiles fun _ file => file.ownerUserId = userId && file.status = .available
  let page := ((rows.insertionSort fun left right => newerFirst left right).drop offset).take limit
  let states ← availability page
  return ⟨200, .fileList (page.map fun file => fileOut file states) limit offset⟩

def getFile (userId fileId : Uuid) : Async Response := do
  match ← ownedFile userId fileId with
  | none => return fileNotFound
  | some file =>
      let states ← availability [file]
      let out := fileOut file states
      return ⟨200, .fileOut out.1 out.2⟩

structure LinkRequest where
  settings : Settings
  userId : Uuid
  rateAllowed : Bool
  fileId : Uuid
  ttlSeconds : Int
  ipAddress : Option Text

/-- The last second `datetime.fromtimestamp` can represent: the end of year 9999. -/
def maxTimestamp : Nat := 253402300799

def createLink (platform : Platform) (request : LinkRequest) : Async Response := do
  if request.rateAllowed = false then return rateLimited
  else if ¬ ((request.settings.minTtlSeconds : Int) ≤ request.ttlSeconds ∧
      request.ttlSeconds ≤ request.settings.maxTtlSeconds) then
    return ttlOutOfRange request.settings
  else
    match ← ownedFile request.userId request.fileId with
    | none => return fileNotFound
    | some file =>
        let time ← now
        let expires := time + request.ttlSeconds.toNat
        let sig := sign platform request.settings.secretKey request.settings.secretKeyId file.id
          expires file.linkVersion
        commit [record .link_generated (some file.id) (some request.userId)
          (some request.ttlSeconds.toNat) request.ipAddress]
        if maxTimestamp < expires then return internalError
        else
          return ⟨201, .link
            { fileId := uuidText file.id
              exp := decimal expires
              v := decimal file.linkVersion
              kid := request.settings.secretKeyId
              sig := sig
              expiresAt := expires }⟩

def deleteFile (userId fileId : Uuid) (ipAddress : Option Text) : Async Response := do
  match ← ownedFile userId fileId with
  | none => return fileNotFound
  | some file =>
      Files.deleteFile file userId ipAddress
      return ⟨204, .empty⟩

structure DownloadRequest where
  settings : Settings
  rateAllowed : Bool
  fileId : Text
  exp : Option Text
  v : Option Text
  kid : Option Text
  sig : Option Text
  ipAddress : Option Text

/-- Audit a refused download; link the row to the file only if it really exists.
A file the session has loaded is found there, without a statement. -/
def deny (platform : Platform) (request : DownloadRequest) (loaded : Option File)
    (refusal : Response) : Async Response := do
  let found ← match uuidOf platform.unicode request.fileId with
    | none => pure none
    | some candidate =>
        if loaded.any (·.id = candidate) then pure (some candidate)
        else do
          let file ← Session.getFile candidate
          pure (file.map fun _ => candidate)
  commit [record .download_denied found none none request.ipAddress]
  return refusal

def invalidLink : Response := httpException 403 "invalid or expired link"
def revokedLink : Response := httpException 403 "link has been revoked"

def serveFile (platform : Platform) (request : DownloadRequest) (claims : LinkClaims) :
    Async Response := do
  match ← Session.getFile claims.fileId with
  | none => deny platform request none fileNotFound
  | some file =>
      if file.status ≠ .available then deny platform request (some file) fileNotFound
      else if file.linkVersion ≠ claims.linkVersion then
        deny platform request (some file) revokedLink
      else
        match ← readFile platform file with
        | .error .fileUnavailable => return httpException 503 "file temporarily unavailable"
        | .error .fileCorrupted => return httpException 500 "file integrity check failed"
        | .error _ => return internalError
        | .ok data =>
            -- Commit the audit row before sending bytes: no unaudited downloads.
            commit [record .download_success (some file.id) none none request.ipAddress]
            return ⟨200, .content data file.originalName⟩

def checkLink (platform : Platform) (request : DownloadRequest) (keys : Keys) (time : Nat) :
    Async Response :=
  match verify platform keys request.fileId request.exp request.v request.kid request.sig time with
  | .error _ => deny platform request none invalidLink
  | .ok claims => serveFile platform request claims

def downloadFile (platform : Platform) (request : DownloadRequest) : Async Response := do
  if request.rateAllowed = false then return rateLimited
  else match request.settings.signingKeys platform.unicode with
    | none => return internalError
    | some keys =>
        let time ← now
        checkLink platform request keys time

end SecureFileSystem.Routers
