import SecureFileSystem.Files
import SecureFileSystem.Configuration

/-!
`services/maintenance.py`: the jobs of the worker.
-/

namespace SecureFileSystem.Maintenance

open Base Database Fleet Session Erasure Files SecureFileSystem.Configuration Program

def placedShards (fileId : Uuid) : Async (List (Shard × StorageNode)) :=
  selectPlaced fun _ shard _ => shard.fileId = fileId

/-- `_consecutive_failures` -/
abbrev Failures := Uuid → Nat

/-- The loop body over one node and its probe: the new counters and the columns
to write back. -/
def probed (threshold time : Nat) (failures : Failures) (node : StorageNode) (healthy : Bool) :
    Failures × List Write :=
  if healthy then
    (Function.update failures node.id 0,
      .setLastSeen node.id time ::
        if node.status ≠ .healthy then [.setStatus node.id .healthy] else [])
  else
    let count := failures node.id + 1
    (Function.update failures node.id count,
      if node.status = .healthy ∧ threshold ≤ count then [.setStatus node.id .unreachable] else [])

def probedAll (threshold time : Nat) : Failures → List (StorageNode × Bool) →
    Failures × List Write
  | failures, [] => (failures, [])
  | failures, (node, healthy) :: rest =>
      let one := probed threshold time failures node healthy
      let all := probedAll threshold time one.1 rest
      (all.1, one.2 ++ all.2)

def checkNodeHealth (settings : Settings) (failures : Failures) : Async Failures := do
  let nodes ← selectNodes fun node => node.status ≠ .decommissioned
  let results ← gather (nodes.map fun node => (node.id, .healthz))
  let time ← now
  let outcome := probedAll settings.nodeFailureThreshold time failures
    (nodes.zip (results.map isHealthy))
  commit outcome.2
  return outcome.1

def gcStaleFiles : List File → Async Unit
  | [] => return ()
  | file :: rest => do
      let placed ← placedShards file.id
      let results ← gather (placed.map fun (shard, node) => (node.id, .delete shard.id))
      if results.all fun reply => succeeded (deleteShard reply) then
        commit [.deleteFile file.id]
        gcStaleFiles rest
      else gcStaleFiles rest

def gcStaleUploads (settings : Settings) : Async Unit := do
  let time ← now
  let stale ← selectFiles fun _ file =>
    file.status = .uploading && decide (file.uploadedAt + settings.staleUploadSeconds < time)
  gcStaleFiles stale

def gcPendingFiles : List File → Async Unit
  | [] => return ()
  | file :: rest => do
      let _ ← removeDeletedShards file
      gcPendingFiles rest

def gcDeletedFiles : Async Unit := do
  let pending ← selectFiles fun db file =>
    file.status = .deleted && db.shards.any (·.fileId = file.id)
  gcPendingFiles pending

/-- The `for` loop of `repair_file` over bad rows, rebuilt blocks and targets. -/
def repairShards (platform : Platform) :
    List ((Shard × StorageNode) × Bytes × StorageNode) → Async Nat
  | [] => return 0
  | ((shard, oldNode), block, target) :: rest =>
      if platform.sha256Hex block ≠ shard.checksumSha256 then repairShards platform rest
      else do
        let newId ← uuid4
        let reply ← call target.id (.put newId block)
        if succeeded (putShard reply) then
          -- Shards are immutable, so the rebuilt copy gets a new id (= object key).
          commit [.repoint shard.id newId target.id]
          let _ ← call oldNode.id (.delete shard.id)
          let repaired ← repairShards platform rest
          return repaired + 1
        else repairShards platform rest

/-- Regenerate the given shards from k good ones onto nodes not holding this file. -/
def repairFile (platform : Platform) (fileId : Uuid) (badShardIds : List Uuid) :
    Async (Except ErasureError Nat) := do
  match ← getFile fileId with
  | none => return .ok 0
  | some file =>
      if file.status ≠ .available then return .ok 0
      else
        let placed ← placedShards fileId
        let bad := placed.filter fun (shard, _) => shard.id ∈ badShardIds
        let good ← shardCandidates file badShardIds (placed.map (·.2))
        let blocks ← fetchBlocks platform good file.dataShards
        if blocks.length < file.dataShards then return .ok 0
        else
          let occupied := placed.map fun (_, node) => node.id
          let healthy ← healthyNodes
          let targets ← shuffle (healthy.filter fun node => node.id ∉ occupied)
          match regenerate platform.zfec blocks file.dataShards file.parityShards
              (bad.map fun (shard, _) => shard.shardIndex) with
          | .error error => return .error error
          | .ok rebuilt =>
              let repaired ← repairShards platform (bad.zip (rebuilt.zip targets))
              return .ok repaired

/-- `defaultdict(set)` from file to shard ids, in order of first entry. -/
abbrev ByFile := List (Uuid × List Uuid)

def ByFile.add (groups : ByFile) (fileId shardId : Uuid) : ByFile :=
  if fileId ∈ groups.map (·.1) then
    groups.map fun group => if group.1 = fileId then (fileId, group.2 ++ [shardId]) else group
  else groups ++ [(fileId, [shardId])]

def repairFiles (platform : Platform) : ByFile → Async (Except ErasureError Nat)
  | [] => return .ok 0
  | (fileId, shardIds) :: rest => do
      match ← repairFile platform fileId shardIds with
      | .error error => return .error error
      | .ok repaired =>
          match ← repairFiles platform rest with
          | .error error => return .error error
          | .ok more => return .ok (repaired + more)

def ofAvailable (db : Db) (shard : Shard) : Bool :=
  db.files.any fun file => file.id = shard.fileId && file.status = .available

def lost (time grace : Nat) (node : StorageNode) : Bool :=
  node.status = .decommissioned ||
    (node.status = .unreachable &&
      decide ((node.lastSeenAt.getD node.createdAt) + grace < time))

def repairLostShards (platform : Platform) (settings : Settings) :
    Async (Except ErasureError Nat) := do
  let time ← now
  let rows ← selectPlaced fun db shard node =>
    ofAvailable db shard && lost time settings.repairGraceSeconds node
  repairFiles platform
    (rows.foldl (fun groups row => groups.add row.1.fileId row.1.id) [])

def scrubShards (platform : Platform) : ByFile → List (Shard × StorageNode) → Async ByFile
  | bad, [] => return bad
  | bad, (shard, node) :: rest => do
      let reply ← call node.id (.get shard.id)
      match getShard reply with
      | .error .shardMissing | .error .shardCorrupt =>
          scrubShards platform (bad.add shard.fileId shard.id) rest
      | .error .nodeError => scrubShards platform bad rest
      | .ok data =>
          if platform.sha256Hex data ≠ shard.checksumSha256 then
            scrubShards platform (bad.add shard.fileId shard.id) rest
          else scrubShards platform bad rest

/-- A query returns its rows in any order, so the random sample is a prefix. -/
def scrub (platform : Platform) (settings : Settings) : Async (Except ErasureError Nat) := do
  if settings.scrubBatchSize = 0 then return .ok 0
  else
    let rows ← selectPlaced fun db shard node =>
      ofAvailable db shard && node.status = .healthy
    let bad ← scrubShards platform [] (rows.take settings.scrubBatchSize)
    repairFiles platform bad

end SecureFileSystem.Maintenance
