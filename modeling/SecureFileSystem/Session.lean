import SecureFileSystem.Program
import SecureFileSystem.Database
import SecureFileSystem.Fleet

/-!
What the services and the worker share, and the requests through which their
code touches it: a statement or a commit on the database, messages to nodes,
the clock, `uuid4` and `random`. Each `await` of the source is one request.
-/

namespace SecureFileSystem.Session

open Base Database Fleet Program

/-- API requests are numbered and run once; the worker runs job after job. -/
inductive Tid where
  | api (request : Nat)
  | worker
  deriving DecidableEq

structure Shared where
  clock : Nat
  db : Db
  /-- committed transactions, oldest first, with who committed them -/
  log : List (Tid × List Write)
  /-- every `uuid4` drawn so far and by whom -/
  issued : List (Tid × Uuid)
  /-- the nodes' shard directories -/
  objects : Uuid → Uuid → Option StoredShard
  flights : List (Flight Tid)

inductive Op where
  /-- `time.time()`, `datetime.now(UTC)`, or the database's `now()` -/
  | now
  | uuid4
  /-- a random order of the given nodes -/
  | shuffle (nodes : List StorageNode)
  | selectFiles (condition : Db → File → Bool)
  | selectPlaced (condition : Db → Shard → StorageNode → Bool)
  | selectNodes (condition : StorageNode → Bool)
  | commit (writes : List Write)
  /-- put requests on the wire; the result names them -/
  | send (requests : List (Uuid × NodeRequest))
  /-- wait until each has a reply or has failed -/
  | await (handles : List Nat)

@[reducible] def Res : Op → Type
  | .now => Nat
  | .uuid4 => Uuid
  | .shuffle _ => List StorageNode
  | .selectFiles _ => List File
  | .selectPlaced _ => List (Shard × StorageNode)
  | .selectNodes _ => List StorageNode
  | .commit _ => Unit
  | .send _ => List Nat
  | .await _ => List Reply

abbrev Async (Out : Type) := Prog Op Res Out

def launch (sender : Tid) (requests : List (Uuid × NodeRequest)) : List (Flight Tid) :=
  requests.map fun request => ⟨sender, request.1, request.2, .pending, none⟩

/-- A query returns its rows in any order, as of the last commit; `uuid4` draws
an id nobody has drawn before. -/
def exec (thread : Tid) (shared : Shared) : (request : Op) → Res request → Option Shared
  | .now, time => if time = shared.clock then some shared else none
  | .uuid4, id =>
      if id ∉ shared.issued.map (·.2) then
        some { shared with issued := (thread, id) :: shared.issued }
      else none
  | .shuffle nodes, order => if order.Perm nodes then some shared else none
  | .selectFiles condition, rows =>
      if rows.Perm (shared.db.files.filter (condition shared.db)) then some shared else none
  | .selectPlaced condition, rows =>
      if rows.Perm (shared.db.placed.filter fun row => condition shared.db row.1 row.2) then
        some shared
      else none
  | .selectNodes condition, rows =>
      if rows.Perm (shared.db.nodes.filter condition) then some shared else none
  | .commit writes, _ =>
      (shared.db.commit writes).map fun db =>
        { shared with db := db, log := shared.log ++ [(thread, writes)] }
  | .send requests, handles =>
      if handles = List.range' shared.flights.length requests.length then
        some { shared with flights := shared.flights ++ launch thread requests }
      else none
  | .await handles, replies =>
      (awaitReplies shared.flights handles replies).map fun flights =>
        { shared with flights := flights }

/-- What happens without the services: time passes, nodes execute or drop
requests, are faulty in any way, and the operator edits `storage_nodes`. -/
inductive Event where
  | tick (seconds : Nat)
  | execute (handle : Nat)
  | lose (handle : Nat)
  /-- an answer that is not the node's handler's -/
  | misreply (handle : Nat) (response : HttpResponse)
  | damage (node shardId : Uuid) (entry : Option StoredShard)
  | operator (node : Uuid) (status : NodeStatus)
  | register (node : StorageNode)

def Shared.store (shared : Shared) (node shardId : Uuid) (entry : Option StoredShard) : Shared :=
  { shared with objects := fun other id =>
      if other = node ∧ id = shardId then entry else shared.objects other id }

def Shared.settle (shared : Shared) (handle : Nat) (flight : Flight Tid) (state : FlightState) :
    Shared :=
  { shared with flights := shared.flights.set handle { flight with state := state } }

def Shared.pending (shared : Shared) (handle : Nat) : Option (Flight Tid) :=
  match shared.flights[handle]? with
  | some flight => if flight.state = .pending then some flight else none
  | none => none

/-- A node executes one request atomically. -/
def Shared.execute (platform : Platform) (shared : Shared) (handle : Nat) (flight : Flight Tid) :
    Shared :=
  match flight.request.shard with
  | none => shared.settle handle flight (.answered (serve platform none flight.request).1)
  | some shardId =>
      let served := serve platform (shared.objects flight.node shardId) flight.request
      (shared.store flight.node shardId served.2).settle handle flight (.answered served.1)

def environment (platform : Platform) (shared : Shared) : Event → Option Shared
  | .tick seconds => some { shared with clock := shared.clock + seconds }
  | .execute handle => (shared.pending handle).map (shared.execute platform handle)
  | .lose handle => (shared.pending handle).map fun flight => shared.settle handle flight .lost
  | .misreply handle response =>
      (shared.pending handle).map fun flight => shared.settle handle flight (.answered response)
  | .damage node shardId entry => some (shared.store node shardId entry)
  | .operator node status =>
      some { shared with db := { shared.db with
        nodes := shared.db.nodes.map fun row =>
          if row.id = node then { row with status := status } else row } }
  | .register node =>
      if node.id ∉ shared.db.nodes.map (·.id) then
        some { shared with db := { shared.db with nodes := shared.db.nodes ++ [node] } }
      else none

def Shared.reply (shared : Shared) (handle : Nat) : Reply :=
  match shared.flights[handle]? with
  | some flight =>
      match flight.state with
      | .answered response => some response
      | _ => none
  | none => none

/-- One way to answer every request: rows in table order, ids counted up, and
the nodes' own responses. -/
def prompt (shared : Shared) : (request : Op) → Option (Res request)
  | .now => some shared.clock
  | .uuid4 => some (BitVec.ofNat 128 (shared.issued.length + 1))
  | .shuffle nodes => some nodes
  | .selectFiles condition => some (shared.db.files.filter (condition shared.db))
  | .selectPlaced condition =>
      some (shared.db.placed.filter fun row => condition shared.db row.1 row.2)
  | .selectNodes condition => some (shared.db.nodes.filter condition)
  | .commit _ => some ()
  | .send requests => some (List.range' shared.flights.length requests.length)
  | .await handles => some (handles.map shared.reply)

def now : Async Nat := Prog.perform Op.now
def uuid4 : Async Uuid := Prog.perform Op.uuid4
def shuffle (nodes : List StorageNode) : Async (List StorageNode) := Prog.perform (Op.shuffle nodes)
def selectFiles (condition : Db → File → Bool) : Async (List File) :=
  Prog.perform (Op.selectFiles condition)
def selectPlaced (condition : Db → Shard → StorageNode → Bool) :
    Async (List (Shard × StorageNode)) :=
  Prog.perform (Op.selectPlaced condition)
def selectNodes (condition : StorageNode → Bool) : Async (List StorageNode) :=
  Prog.perform (Op.selectNodes condition)
def commit (writes : List Write) : Async Unit := Prog.perform (Op.commit writes)
def send (requests : List (Uuid × NodeRequest)) : Async (List Nat) := Prog.perform (Op.send requests)
def await (handles : List Nat) : Async (List Reply) := Prog.perform (Op.await handles)

/-- `asyncio.gather` over node calls: all on the wire, then all awaited. -/
def gather (requests : List (Uuid × NodeRequest)) : Async (List Reply) := do
  let handles ← send requests
  await handles

def call (node : Uuid) (request : NodeRequest) : Async Reply := do
  let replies ← gather [(node, request)]
  return replies.headD none

/-- `db.get(File, file_id)` -/
def getFile (fileId : Uuid) : Async (Option File) := do
  let rows ← selectFiles fun _ file => file.id = fileId
  return rows.head?

end SecureFileSystem.Session
