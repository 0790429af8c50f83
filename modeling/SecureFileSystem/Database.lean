import SecureFileSystem.Base

/-!
The tables of `db/models.py` and the statements the services send to them.
A transaction is its list of writes; it commits as a whole or, when a
constraint or an ORM row count fails, not at all. Row locks make it safe to
apply a transaction's writes at its commit: no other session changes the rows
in between.
-/

namespace SecureFileSystem.Database

open Base

inductive FileStatus where
  | uploading
  | available
  | deleted
  deriving DecidableEq

inductive NodeStatus where
  | healthy
  | unreachable
  | decommissioned
  deriving DecidableEq

inductive ShardKind where
  | data
  | parity
  deriving DecidableEq

inductive AuditEventType where
  | file_uploaded
  | link_generated
  | download_success
  | download_denied
  | file_deleted
  deriving DecidableEq

/-- Times are Unix seconds. -/
structure File where
  id : Uuid
  ownerUserId : Uuid
  originalName : Text
  contentType : Text
  sizeBytes : Nat
  checksumSha256 : Text
  dataShards : Nat
  parityShards : Nat
  linkVersion : Nat
  status : FileStatus
  uploadedAt : Nat
  deletedAt : Option Nat
  deriving DecidableEq

structure StorageNode where
  id : Uuid
  status : NodeStatus
  lastSeenAt : Option Nat
  createdAt : Nat
  deriving DecidableEq

structure Shard where
  id : Uuid
  fileId : Uuid
  shardIndex : Nat
  kind : ShardKind
  nodeId : Uuid
  checksumSha256 : Text
  sizeBytes : Nat
  deriving DecidableEq

structure AuditEvent where
  fileId : Option Uuid
  actorUserId : Option Uuid
  eventType : AuditEventType
  ttlSeconds : Option Nat
  ipAddress : Option Text
  deriving DecidableEq

structure Db where
  files : List File
  shards : List Shard
  nodes : List StorageNode
  audit : List AuditEvent
  deriving DecidableEq

def Db.shardsOf (db : Db) (fileId : Uuid) : List Shard :=
  db.shards.filter (·.fileId = fileId)

/-- `shards JOIN storage_nodes ON shards.node_id = storage_nodes.id` -/
def Db.placed (db : Db) : List (Shard × StorageNode) :=
  db.shards.flatMap fun shard => (db.nodes.filter (·.id = shard.nodeId)).map (shard, ·)

inductive Write where
  /-- `db.add(file)` -/
  | insertFile (file : File)
  /-- `db.add_all(shards)` -/
  | insertShards (shards : List Shard)
  /-- `file.status = "available"` -/
  | setAvailable (fileId : Uuid)
  /-- `file.status = "deleted"` with `deleted_at` and the new `link_version` -/
  | setDeleted (fileId : Uuid) (deletedAt linkVersion : Nat)
  /-- `DELETE FROM files WHERE id = …`; shard rows go by cascade -/
  | deleteFile (fileId : Uuid)
  /-- `db.delete(shard)` for each of them -/
  | deleteShards (ids : List Uuid)
  /-- `UPDATE shards SET id = new, node_id = … WHERE id = old` -/
  | repoint (old new node : Uuid)
  /-- `node.last_seen_at = …` -/
  | setLastSeen (nodeId : Uuid) (seen : Nat)
  /-- `node.status = …` -/
  | setStatus (nodeId : Uuid) (status : NodeStatus)
  /-- `audit.record(…)` -/
  | audit (event : AuditEvent)
  deriving DecidableEq

def File.checks (file : File) : Bool :=
  decide (0 < file.sizeBytes ∧ 1 ≤ file.dataShards ∧ 1 ≤ file.parityShards)

/-- The constraints on new shard rows: primary key, foreign keys and
`uq_shards_file_index`. -/
def Db.acceptsShards (db : Db) (shards : List Shard) : Bool :=
  let all := db.shards ++ shards
  decide ((all.map (·.id)).Nodup ∧
    (all.map fun shard => (shard.fileId, shard.shardIndex)).Nodup ∧
    (∀ shard ∈ shards, shard.fileId ∈ db.files.map (·.id)) ∧
    ∀ shard ∈ shards, shard.nodeId ∈ db.nodes.map (·.id))

def File.update (fileId : Uuid) (change : File → File) (files : List File) : List File :=
  files.map fun file => if file.id = fileId then change file else file

/-- An audit column is a 32-bit `Integer`. -/
def maxInteger : Nat := 2 ^ 31 - 1

def AuditEvent.checks (event : AuditEvent) : Bool :=
  match event.ttlSeconds with
  | none => true
  | some ttl => decide (ttl ≤ maxInteger)

/-- One statement; `none` is the exception that rolls the transaction back. The
ORM raises `StaleDataError` when an `UPDATE` matches no row, the Core `DELETE`
and `UPDATE` do not, and an ORM `DELETE` that matches no row only warns. -/
def Db.write (db : Db) : Write → Option Db
  | .insertFile file =>
      if file.id ∉ db.files.map (·.id) ∧ file.checks = true then
        some { db with files := db.files ++ [file] }
      else none
  | .insertShards shards =>
      if db.acceptsShards shards then some { db with shards := db.shards ++ shards } else none
  | .setAvailable fileId =>
      if fileId ∈ db.files.map (·.id) then
        some { db with
          files := File.update fileId (fun file => { file with status := .available }) db.files }
      else none
  | .setDeleted fileId deletedAt linkVersion =>
      if fileId ∈ db.files.map (·.id) then
        some { db with
          files := File.update fileId (fun file => { file with
            status := .deleted
            deletedAt := some deletedAt
            linkVersion := linkVersion }) db.files }
      else none
  | .deleteFile fileId =>
      some { db with
        files := db.files.filter (·.id ≠ fileId)
        shards := db.shards.filter (·.fileId ≠ fileId)
        audit := db.audit.map fun event =>
          if event.fileId = some fileId then { event with fileId := none } else event }
  | .deleteShards ids => some { db with shards := db.shards.filter (·.id ∉ ids) }
  | .repoint old new node =>
      let shards := db.shards.map fun shard =>
        if shard.id = old then { shard with id := new, nodeId := node } else shard
      if (shards.map (·.id)).Nodup ∧ ∀ shard ∈ shards, shard.nodeId ∈ db.nodes.map (·.id) then
        some { db with shards := shards }
      else none
  | .setLastSeen nodeId seen =>
      some { db with nodes := db.nodes.map fun node =>
        if node.id = nodeId then { node with lastSeenAt := some seen } else node }
  | .setStatus nodeId status =>
      some { db with nodes := db.nodes.map fun node =>
        if node.id = nodeId then { node with status := status } else node }
  | .audit event =>
      if event.checks = true ∧ event.fileId.all (· ∈ db.files.map (·.id)) = true then
        some { db with audit := db.audit ++ [event] }
      else none

/-- A transaction: its statements in order, all or nothing. -/
def Db.commit (db : Db) : List Write → Option Db
  | [] => some db
  | write :: rest => (db.write write).bind fun next => next.commit rest

end SecureFileSystem.Database
