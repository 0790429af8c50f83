import SecureFileSystem.Base

/-!
The wire between the services and the storage nodes: what a node does with a
request (`storage_node/router.py` over its store) and what `NodeClient` makes
of the reply. A node is named by its `storage_nodes.id`, which stands for its
unique address.
-/

namespace SecureFileSystem.Fleet

open Base

/-- A file of the shard directory: the digest, then the payload. -/
structure StoredShard where
  digest : Text
  data : Bytes
  deriving DecidableEq

inductive NodeRequest where
  | put (shardId : Uuid) (data : Bytes)
  | get (shardId : Uuid)
  | delete (shardId : Uuid)
  | healthz
  deriving DecidableEq

structure HttpResponse where
  status : Nat
  /-- the `X-Shard-Status: corrupt` header -/
  corrupt : Bool
  content : Bytes
  deriving DecidableEq

/-- What the client gets: a response, or `none` for an `httpx.HTTPError`. -/
abbrev Reply := Option HttpResponse

def answer (status : Nat) : HttpResponse := ⟨status, false, []⟩

def serve (platform : Platform) (entry : Option StoredShard) :
    NodeRequest → HttpResponse × Option StoredShard
  | .put _ data =>
      if data = [] then (answer 400, entry)
      else match entry with
        | some _ => (answer 409, entry)
        | none => (answer 201, some ⟨platform.sha256Hex data, data⟩)
  | .get _ =>
      match entry with
      | none => (answer 404, entry)
      | some stored =>
          if platform.sha256Hex stored.data ≠ stored.digest then (⟨500, true, []⟩, entry)
          else (⟨200, false, stored.data⟩, entry)
  | .delete _ =>
      match entry with
      | none => (answer 404, none)
      | some _ => (answer 204, none)
  | .healthz => (answer 200, entry)

def NodeRequest.shard : NodeRequest → Option Uuid
  | .put shardId _ | .get shardId | .delete shardId => some shardId
  | .healthz => none

inductive NodeError where
  | nodeError
  | shardMissing
  | shardCorrupt
  deriving DecidableEq

def putShard : Reply → Except NodeError Unit
  | none => .error .nodeError
  | some response => if response.status = 201 then .ok () else .error .nodeError

def getShard : Reply → Except NodeError Bytes
  | none => .error .nodeError
  | some response =>
      if response.status = 404 then .error .shardMissing
      else if response.corrupt then .error .shardCorrupt
      else if response.status = 200 then .ok response.content
      else .error .nodeError

/-- Idempotent: a shard that is already gone counts as deleted. -/
def deleteShard : Reply → Except NodeError Unit
  | none => .error .nodeError
  | some response =>
      if response.status = 204 ∨ response.status = 404 then .ok () else .error .nodeError

def isHealthy : Reply → Bool
  | none => false
  | some response => response.status = 200

def succeeded {Result : Type} : Except NodeError Result → Bool
  | .ok _ => true
  | .error _ => false

inductive FlightState where
  | pending
  | answered (response : HttpResponse)
  | lost
  deriving DecidableEq

/-- A request on its way. The node may execute it at any time after it was
sent, also after the client has given up on it. -/
structure Flight (Sender : Type) where
  sender : Sender
  node : Uuid
  request : NodeRequest
  state : FlightState
  /-- what the client was told, once it stopped waiting -/
  reply : Option Reply
  deriving DecidableEq

variable {Sender : Type}

def Flight.mayReply (flight : Flight Sender) : Reply → Bool
  | none => true
  | some response => decide (flight.state = .answered response)

def awaitReplies (flights : List (Flight Sender)) : List Nat → List Reply →
    Option (List (Flight Sender))
  | [], [] => some flights
  | handle :: handles, reply :: replies =>
      match flights[handle]? with
      | some flight =>
          if flight.mayReply reply then
            awaitReplies (flights.set handle { flight with reply := some reply }) handles replies
          else none
      | none => none
  | _, _ => none

end SecureFileSystem.Fleet
