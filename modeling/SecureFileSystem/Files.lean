import SecureFileSystem.Session
import SecureFileSystem.Erasure

/-!
`services/files.py`: the file lifecycle over the erasure-coded fleet. What
reads the session's identity map takes the rows loaded before as an argument.
-/

namespace SecureFileSystem.Files

open Base Database Fleet Session Erasure Program

inductive FilesError where
  | insufficientNodes
  | uploadFailed
  | fileUnavailable
  | fileCorrupted
  | erasure (error : ErasureError)
  deriving DecidableEq

inductive AvailabilityState where
  | healthy
  | degraded
  | unavailable
  deriving DecidableEq

structure Availability where
  state : AvailabilityState
  usableShards : Nat
  totalShards : Nat
  requiredShards : Nat
  deriving DecidableEq

def healthyNodes : Async (List StorageNode) :=
  selectNodes fun node => node.status = .healthy

def record (eventType : AuditEventType) (fileId actorUserId : Option Uuid) (ttlSeconds : Option Nat)
    (ipAddress : Option Text) : Write :=
  .audit ⟨fileId, actorUserId, eventType, ttlSeconds, ipAddress⟩

structure Upload where
  ownerId : Uuid
  filename : Text
  contentType : Text
  data : Bytes
  k : Nat
  m : Nat
  ipAddress : Option Text

/-- One `uuid4()` for each of `count` shards. -/
def drawIds : Nat → Async (List Uuid)
  | 0 => return []
  | count + 1 => do
      let id ← uuid4
      let rest ← drawIds count
      return id :: rest

/-- `uploaded_at` is the database's `now()`: when the transaction began. -/
def uploadedFile (platform : Platform) (upload : Upload) (fileId : Uuid) (began : Nat) : File where
  id := fileId
  ownerUserId := upload.ownerId
  originalName := upload.filename
  contentType := upload.contentType
  sizeBytes := upload.data.length
  checksumSha256 := platform.sha256Hex upload.data
  dataShards := upload.k
  parityShards := upload.m
  linkVersion := 1
  status := .uploading
  uploadedAt := began
  deletedAt := none

def uploadedShard (platform : Platform) (upload : Upload) (fileId : Uuid) (index : Nat)
    (id : Uuid) (node : StorageNode) (block : Bytes) : Shard where
  id := id
  fileId := fileId
  shardIndex := index
  kind := if index < upload.k then .data else .parity
  nodeId := node.id
  checksumSha256 := platform.sha256Hex block
  sizeBytes := block.length

def uploadedShards (platform : Platform) (upload : Upload) (fileId : Uuid) :
    Nat → List Uuid → List (StorageNode × Bytes) → List Shard
  | index, id :: ids, (node, block) :: rest =>
      uploadedShard platform upload fileId index id node block ::
        uploadedShards platform upload fileId (index + 1) ids rest
  | _, _, _ => []

def putRequests (shards : List Shard) (blocks : List Bytes) : List (Uuid × NodeRequest) :=
  (shards.zip blocks).map fun (shard, block) => (shard.nodeId, .put shard.id block)

def deleteRequests (shards : List Shard) : List (Uuid × NodeRequest) :=
  shards.map fun shard => (shard.nodeId, .delete shard.id)

/-- Delete every shard, not just acknowledged ones; the rows go only once every
node has confirmed. -/
def rollBackUpload (fileId : Uuid) (shards : List Shard) : Async Unit := do
  let replies ← gather (deleteRequests shards)
  if replies.all fun reply => succeeded (deleteShard reply) then
    commit [.deleteFile fileId]
  else return ()

def uploadFile (platform : Platform) (began : Nat) (upload : Upload) :
    Async (Except FilesError File) :=
  match encode platform.zfec upload.data upload.k upload.m with
  | .error error => return .error (.erasure error)
  | .ok blocks => do
      let candidates ← healthyNodes
      if candidates.length < upload.k + upload.m then return .error .insufficientNodes
      else
        let order ← shuffle candidates
        let placement := order.take (upload.k + upload.m)
        -- `zip(placement, blocks, strict=True)`
        if placement.length ≠ blocks.length then return .error (.erasure .valueError)
        else
          let fileId ← uuid4
          let ids ← drawIds placement.length
          let file := uploadedFile platform upload fileId began
          let shards := uploadedShards platform upload fileId 0 ids (placement.zip blocks)
          -- Rows before bytes: if this process dies mid-upload, GC can find every shard.
          commit [.insertFile file, .insertShards shards]
          let results ← gather (putRequests shards blocks)
          if results.all fun reply => succeeded (putShard reply) then
            commit [.setAvailable fileId,
              record .file_uploaded (some fileId) (some upload.ownerId) none upload.ipAddress]
            return .ok { file with status := .available }
          else
            rollBackUpload fileId shards
            return .error .uploadFailed

/-- A row loaded earlier in the session keeps the attributes it was loaded with. -/
def identityMap (loaded : List StorageNode) (node : StorageNode) : StorageNode :=
  (loaded.find? (·.id = node.id)).getD node

def candidateBefore (left right : Shard × StorageNode) : Bool :=
  let key (candidate : Shard × StorageNode) : Nat :=
    if candidate.2.status ≠ .healthy then 1 else 0
  decide (key left < key right) ||
    (decide (key left = key right) && decide (left.1.shardIndex ≤ right.1.shardIndex))

def shardCandidates (file : File) (exclude : List Uuid) (loaded : List StorageNode) :
    Async (List (Shard × StorageNode)) := do
  let rows ← selectPlaced fun _ shard node =>
    shard.fileId = file.id && node.status ≠ .decommissioned
  let candidates := (rows.map fun (shard, node) => (shard, identityMap loaded node)).filter
    fun candidate => candidate.1.id ∉ exclude
  return candidates.insertionSort fun left right => candidateBefore left right

/-- The loop body of `fetch_blocks` over one batch and its results. -/
def collect (platform : Platform) :
    Blocks → List ((Shard × StorageNode) × Reply) → Blocks
  | collected, [] => collected
  | collected, ((shard, _), reply) :: rest =>
      match getShard reply with
      | .error _ => collect platform collected rest
      | .ok block =>
          if platform.sha256Hex block ≠ shard.checksumSha256 then collect platform collected rest
          else collect platform (collected.set shard.shardIndex block) rest

def getRequests (batch : List (Shard × StorageNode)) : List (Uuid × NodeRequest) :=
  batch.map fun (shard, node) => (node.id, .get shard.id)

/-- The `while` loop of `fetch_blocks`. Every round takes at least one candidate,
so as much fuel as there are candidates never runs out. -/
def fetchRounds (platform : Platform) (k : Nat) :
    Nat → Blocks → List (Shard × StorageNode) → Async Blocks
  | 0, collected, _ => return collected
  | fuel + 1, collected, remaining =>
      if collected.length < k ∧ remaining ≠ [] then do
        let batch := remaining.take (k - collected.length)
        let results ← gather (getRequests batch)
        fetchRounds platform k fuel (collect platform collected (batch.zip results))
          (remaining.drop (k - collected.length))
      else return collected

def fetchBlocks (platform : Platform) (candidates : List (Shard × StorageNode)) (k : Nat) :
    Async Blocks :=
  fetchRounds platform k candidates.length [] candidates

def readFile (platform : Platform) (file : File) : Async (Except FilesError Bytes) := do
  let candidates ← shardCandidates file [] []
  let blocks ← fetchBlocks platform candidates file.dataShards
  if blocks.length < file.dataShards then return .error .fileUnavailable
  else
    match decode platform.zfec blocks file.dataShards file.parityShards file.sizeBytes with
    | .error error => return .error (.erasure error)
    | .ok data =>
        if platform.sha256Hex data ≠ file.checksumSha256 then return .error .fileCorrupted
        else return .ok data

def availabilityOf (rows : List (Shard × StorageNode)) (file : File) : Availability :=
  let count := (rows.filter fun (shard, node) =>
    shard.fileId = file.id && node.status = .healthy).length
  let total := file.dataShards + file.parityShards
  let state :=
    if total ≤ count then .healthy
    else if file.dataShards ≤ count then .degraded
    else .unavailable
  ⟨state, count, total, file.dataShards⟩

def availability (files : List File) : Async (List (Uuid × Availability)) :=
  if files = [] then return []
  else do
    let rows ← selectPlaced fun _ shard _ => shard.fileId ∈ files.map (·.id)
    return files.map fun file => (file.id, availabilityOf rows file)

def confirmed (placed : List (Shard × StorageNode)) (replies : List Reply) : List Uuid :=
  (placed.zip replies).filterMap fun ((shard, _), reply) =>
    if succeeded (deleteShard reply) then some shard.id else none

/-- Best-effort shard removal for a deleted file; the worker retries what's left. -/
def removeDeletedShards (file : File) : Async Nat := do
  let placed ← selectPlaced fun _ shard _ => shard.fileId = file.id
  let replies ← gather (placed.map fun (shard, node) => (node.id, .delete shard.id))
  let removed := confirmed placed replies
  commit [.deleteShards removed]
  return removed.length

def deleteFile (file : File) (actorId : Uuid) (ipAddress : Option Text) : Async Unit := do
  let deletedAt ← now
  commit [.setDeleted file.id deletedAt (file.linkVersion + 1),
    record .file_deleted (some file.id) (some actorId) none ipAddress]
  let _ ← removeDeletedShards file
  return ()

end SecureFileSystem.Files
