import SecureFileSystem.Maintenance
import SecureFileSystem.Routers

/-!
The running service: any number of API requests and one worker over the shared
database and fleet. A thread that fails (a database exception, a rollback, a
killed process) ends there; its session is rolled back.
-/

namespace SecureFileSystem.Service

open Base Database Session Maintenance Routers SecureFileSystem.Configuration Program Transition

inductive Job where
  | upload (request : UploadRequest)
  | listFiles (userId : Uuid) (limit offset : Nat)
  | getFile (userId fileId : Uuid)
  | createLink (request : LinkRequest)
  | deleteFile (userId fileId : Uuid) (ipAddress : Option Text)
  | download (request : DownloadRequest)
  | checkNodeHealth (settings : Settings) (failures : Failures)
  | gcStaleUploads (settings : Settings)
  | gcDeletedFiles
  | repairLostShards (settings : Settings)
  | scrub (settings : Settings)
  | repairFile (fileId : Uuid) (badShardIds : List Uuid)

inductive Outcome where
  | response (response : Response)
  /-- a job that returned, with its count where it has one -/
  | returned (count : Nat)
  /-- a job an exception ended -/
  | raised

def Job.ofWorker : Job → Bool
  | .checkNodeHealth _ _ | .gcStaleUploads _ | .gcDeletedFiles | .repairLostShards _ | .scrub _
  | .repairFile _ _ => true
  | _ => false

def counted : Except Erasure.ErasureError Nat → Outcome
  | .ok count => .returned count
  | .error _ => .raised

def program (platform : Platform) : Job → Async Outcome
  | .upload request => do return .response (← Routers.uploadFile platform request)
  | .listFiles userId limit offset => do return .response (← listFiles userId limit offset)
  | .getFile userId fileId => do return .response (← Routers.getFile userId fileId)
  | .createLink request => do return .response (← createLink platform request)
  | .deleteFile userId fileId ip => do return .response (← Routers.deleteFile userId fileId ip)
  | .download request => do return .response (← downloadFile platform request)
  | .checkNodeHealth settings failures => do
      let _ ← checkNodeHealth settings failures
      return .returned 0
  | .gcStaleUploads settings => do
      gcStaleUploads settings
      return .returned 0
  | .gcDeletedFiles => do
      gcDeletedFiles
      return .returned 0
  | .repairLostShards settings => do return counted (← repairLostShards platform settings)
  | .scrub settings => do return counted (← scrub platform settings)
  | .repairFile fileId bad => do return counted (← repairFile platform fileId bad)

def starts : Tid → Job → Bool
  | .worker, job => job.ofWorker
  | .api _, job => !job.ofWorker

def service (platform : Platform) : System Shared Tid Job Event Op Res Outcome where
  program := program platform
  starts := starts
  restarts := fun thread => thread = .worker
  exec := exec
  env := environment platform

abbrev ServiceConfig := Config Shared Tid Job Op Res Outcome
abbrev ServiceLabel := Label Tid Job Event Op Res Outcome

abbrev ServiceMove := Move Shared Tid Job Event Op Res

def prompts (thread : Tid) (count : Nat) : List ServiceMove :=
  List.replicate count (.act thread prompt)

def delivers (handles : List Nat) : List ServiceMove :=
  handles.map fun handle => .env (.execute handle)

/-- The smallest deployment: one data and one parity shard. -/
def smallSettings : Settings where
  secretKey := List.replicate 32 'k'
  secretKeyId := ['a']
  previousSecretKeys := []
  shardDataCount := 1
  shardParityCount := 1
  maxUploadBytes := 100
  minTtlSeconds := 1
  maxTtlSeconds := 100
  nodeFailureThreshold := 3
  staleUploadSeconds := 60
  repairGraceSeconds := 60
  scrubBatchSize := 1

def smallUpload : UploadRequest where
  settings := smallSettings
  userId := 9
  rateAllowed := true
  upload := some (['f'], ['t'], [7])
  ipAddress := none

def healthyNode (id : Uuid) : StorageNode := ⟨id, .healthy, none, 0⟩

/-- Three nodes, and an upload up to the start of its PUTs. -/
def smallStart : List ServiceMove :=
  [.env (.register (healthyNode 1)), .env (.register (healthyNode 2)),
    .env (.register (healthyNode 3)), .start (.api 0) (.upload smallUpload)] ++
  prompts (.api 0) 8

def smallUploaded : List ServiceMove :=
  smallStart ++ delivers [0, 1] ++ prompts (.api 0) 4 ++ [.finish (.api 0)]

def smallLink : LinkRequest where
  settings := smallSettings
  userId := 9
  rateAllowed := true
  fileId := 1
  ttlSeconds := 50
  ipAddress := none

/-- What the URL of that link asks for, if it was issued at second 0. -/
def smallDownload : DownloadRequest where
  settings := smallSettings
  rateAllowed := true
  fileId := Uuid.uuidText 1
  exp := some ['5', '0']
  v := some ['1']
  kid := some ['a']
  sig := some "EMfnxTEh1_QniMrU5YJo84kfT4vOp4WGj683OvuKUow".toList
  ipAddress := none

/-- A fresh deployment: no files, and no nodes until the operator registers some. -/
def deployed (clock : Nat) : ServiceConfig where
  shared := ⟨clock, ⟨[], [], [], []⟩, [], [], fun _ _ => none, []⟩
  threads := fun _ => .fresh

end SecureFileSystem.Service
