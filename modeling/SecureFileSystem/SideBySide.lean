import SecureFileSystem.Linearization
import SecureFileSystem.Directories

/-!
The service over nodes whose handlers run side by side. Between two calls of
one handler to the file system any other may move; the results about the
service let a node execute a request at once. A request takes effect with the
one call that makes, follows or removes its shard's entry.
-/

namespace SecureFileSystem.SideBySide

open Base Uuid Database Fleet Session Program Transition Execution Simulation
  SecureFileSystem.Configuration Service Storable
open Directories (storedShard Unfit Declines handle_stranger sent_token long_unreadable)
open Storage (Disk alone alone_bind shardFile digestSize)
open ShardStore (Call NodeConfig NodeLabel Answers event node)
open Linearization (NodeMove)
open StorageNode (Library Canonical Raised requireNodeToken dependencies checkBody httpException
  checksumHeader shardStatusHeader hex sha256Hex answered handle)
open Scrub (onWire getRequest)

/-- A handler up to its call of the shard store. -/
def dispatch (library : Library) (settings : StorageNode.Settings) (request : StorageNode.Request) :
    Except Raised Call :=
  match dependencies library settings request with
  | .error raised => .error raised
  | .ok id =>
      match request.method with
      | .put =>
          match request.checksum with
          | none => .error (.http ⟨422, [], .missingHeader checksumHeader⟩)
          | some checksum =>
              match checkBody library settings request checksum with
              | .error raised => .error raised
              | .ok data => .ok (.write id data)
      | .get => .ok (.read id)
      | .delete => .ok (.delete id)

/-- And from the result of that call on. -/
def conclude (library : Library) : Call → ShardStore.Outcome → Except Raised StorageNode.Response
  | .write id data, .wrote (.ok digest) =>
      .ok ⟨201, [], .stored (uuidText id) (hex digest) data.length⟩
  | .write _ _, .wrote (.error .shardExists) =>
      .error (httpException 409 "shard already exists".toList)
  | .read _, .bytes (.ok data) => .ok ⟨200, [(checksumHeader, sha256Hex library data)], .content data⟩
  | .read _, .bytes (.error .shardCorrupted) =>
      .error (.http ⟨500, [(shardStatusHeader, "corrupt".toList)],
        .detail "shard checksum mismatch".toList⟩)
  | .read _, .bytes (.error .shardNotFound) => .error (httpException 404 "shard not found".toList)
  | .delete _, .deleted true => .ok ⟨204, [], .empty⟩
  | .delete _, .deleted false => .error (httpException 404 "shard not found".toList)
  | _, _ => .error .osError

theorem alone_program (sha256 : Bytes → Bytes) (caller levels : Nat) (call : Call) (disk : Disk) :
    alone caller (ShardStore.program sha256 levels call) disk =
      match call with
      | .write id data =>
          ((.wrote (alone caller (Storage.writeShard sha256 levels id data) disk).1),
            (alone caller (Storage.writeShard sha256 levels id data) disk).2)
      | .read id =>
          ((.bytes (alone caller (Storage.readShard sha256 id) disk).1),
            (alone caller (Storage.readShard sha256 id) disk).2)
      | .delete id =>
          ((.deleted (alone caller (Storage.deleteShard id) disk).1),
            (alone caller (Storage.deleteShard id) disk).2) := by
  cases call with
  | write id data => exact alone_bind caller _ _ disk
  | read id => exact alone_bind caller _ _ disk
  | delete id => exact alone_bind caller _ _ disk

/-- A handler that nobody interrupts is these two parts around its call. -/
theorem handle_split (library : Library) (settings : StorageNode.Settings) (caller : Nat)
    (request : StorageNode.Request) (disk : Disk) :
    handle library settings caller request disk =
      match dispatch library settings request with
      | .error raised => (.error raised, disk)
      | .ok call =>
          (conclude library call
            (alone caller (ShardStore.program library.sha256 disk.levels call) disk).1,
            (alone caller (ShardStore.program library.sha256 disk.levels call) disk).2) := by
  unfold handle dispatch
  cases dependencies library settings request with
  | error raised => rfl
  | ok id =>
      dsimp only
      cases request.method with
      | put =>
          dsimp only [StorageNode.putShard]
          cases request.checksum with
          | none => rfl
          | some checksum =>
              dsimp only
              cases checkBody library settings request checksum with
              | error raised => rfl
              | ok data =>
                  dsimp only
                  rw [alone_program]
                  dsimp only
                  generalize alone caller (Storage.writeShard library.sha256 disk.levels id data)
                    disk = result
                  obtain ⟨out, after⟩ := result
                  cases out with
                  | ok digest => rfl
                  | error error => cases error <;> rfl
      | get =>
          dsimp only [StorageNode.getShard]
          rw [alone_program]
          dsimp only
          generalize alone caller (Storage.readShard library.sha256 id) disk = result
          obtain ⟨out, after⟩ := result
          cases out with
          | ok data => rfl
          | error error => cases error <;> rfl
      | delete =>
          dsimp only [StorageNode.deleteShardEndpoint]
          rw [alone_program]
          dsimp only
          generalize alone caller (Storage.deleteShard id) disk = result
          obtain ⟨out, after⟩ := result
          cases out with
          | false => rfl
          | true => rfl

def callOf : NodeRequest → Option Call
  | .put id data => if data = [] then none else some (.write id data)
  | .get id => some (.read id)
  | .delete id => some (.delete id)
  | .healthz => none

def told : WriteOnce.Event Uuid Bytes → HttpResponse
  | .put _ _ stored => if stored then answer 201 else answer 409
  | .get _ none => answer 404
  | .get _ (some data) => ⟨200, false, data⟩
  | .remove _ removed => if removed then answer 204 else answer 404

theorem conclude_told {library : Library} {call : Call} {out : ShardStore.Outcome}
    {event : WriteOnce.Event Uuid Bytes} (answers : Answers library.sha256 call out event) :
    onWire (answered (conclude library call out)) = told event := by
  cases call with
  | write id data =>
      obtain ⟨stored, rfl, rfl⟩ := Linearization.answers_write answers
      cases stored with
      | false => rfl
      | true => rfl
  | read id =>
      cases event with
      | get other found =>
          obtain ⟨rfl, rfl⟩ := answers
          cases found with
          | none => rfl
          | some data => rfl
      | put _ _ _ => cases answers
      | remove _ _ => cases answers
  | delete id =>
      cases event with
      | remove other removed =>
          obtain ⟨rfl, rfl⟩ := answers
          cases removed with
          | false => rfl
          | true => rfl
      | put _ _ _ => cases answers
      | get _ _ => cases answers

section Requests
variable {platform : Platform} {library : Library} {settings : StorageNode.Settings}
  {token : Bytes} {chunks : List Bytes}

theorem serves_serve {store next : WriteOnce.Store Uuid Bytes} {request : NodeRequest} {call : Call}
    {out : ShardStore.Outcome} {event : WriteOnce.Event Uuid Bytes}
    (named : callOf request = some call) (answers : Answers library.sha256 call out event)
    (serves : WriteOnce.Serves store event next) :
    ∃ id, request.shard = some id ∧ (∀ other, other ≠ id → next other = store other) ∧
      serve platform ((store id).map fun data => ⟨platform.sha256Hex data, data⟩) request =
        (told event, (next id).map fun data => ⟨platform.sha256Hex data, data⟩) := by
  cases request with
  | healthz => cases named
  | put id data =>
      obtain ⟨nonempty, same⟩ := Option.ite_none_left_eq_some.mp named
      cases same
      obtain ⟨stored, rfl, -⟩ := Linearization.answers_write answers
      refine ⟨id, rfl, ?_⟩
      simp only [WriteOnce.Serves, WriteOnce.putIfAbsent] at serves
      cases held : store id with
      | none =>
          rw [held] at serves
          cases serves
          refine ⟨fun other apart => Function.update_of_ne apart _ _, ?_⟩
          simp only [serve, if_neg nonempty, Option.map_none, Function.update_self]
          rfl
      | some value =>
          rw [held] at serves
          cases serves
          refine ⟨fun _ _ => rfl, ?_⟩
          simp only [serve, if_neg nonempty, Option.map_some, held]
          rfl
  | get id =>
      cases named
      cases event with
      | put _ _ _ => cases answers
      | remove _ _ => cases answers
      | get other found =>
          obtain ⟨rfl, -⟩ := answers
          cases serves
          refine ⟨other, rfl, fun _ _ => rfl, ?_⟩
          cases held : store other with
          | none => rfl
          | some data => simp [serve, told]
  | delete id =>
      cases named
      cases event with
      | put _ _ _ => cases answers
      | get _ _ => cases answers
      | remove other removed =>
          obtain ⟨rfl, -⟩ := answers
          cases serves
          refine ⟨other, rfl, fun _ apart => Function.update_of_ne apart _ _, ?_⟩
          rw [Function.update_self]
          cases held : store other with
          | none => rfl
          | some data => rfl

/-- What stops a handler before its call, seen from outside. -/
inductive Stopped (settings : StorageNode.Settings) (token : Bytes) (chunks : List Bytes)
    (request : NodeRequest) (raised : Raised) : Prop
  | unfit (unfit : Unfit settings token chunks)
      (declines : Declines (onWire (answered (.error raised))))
  | empty (id : Uuid) (nothing : request = .put id [])
      (told : onWire (answered (.error raised)) = answer 400)

theorem dispatch_stranger (refused : requireNodeToken settings (some token) ≠ .ok ())
    {received : StorageNode.Request} (presented : received.nodeToken = some token)
    (request : NodeRequest) :
    ∃ raised, dispatch library settings received = .error raised ∧
      Stopped settings token chunks request raised := by
  cases outcome : requireNodeToken settings (some token) with
  | ok _ => exact absurd outcome refused
  | error raised =>
      have stopped : dispatch library settings received = .error raised := by
        simp only [dispatch, dependencies, presented, outcome, bind, Except.bind]
      refine ⟨raised, stopped, .unfit (.inl refused) ?_⟩
      have declines : Declines (onWire (answered
          (handle library settings 0 received StorageNode.emptyDisk).1)) :=
        (handle_stranger 0 refused presented).1
      rw [handle_split, stopped] at declines
      exact declines

theorem admitted_dependencies (lowers : Links.AsciiLower library.unicode)
    (accepted : requireNodeToken settings (some token) = .ok ()) {received : StorageNode.Request}
    (presented : received.nodeToken = some token) {id : Uuid}
    (named : received.shardId = uuidText id) :
    dependencies library settings received = .ok id := by
  have canonical := (StorageNode.validShardId_canonical library received.shardId id).mp
    (by rw [named]; exact (text_canonical lowers id id).mpr rfl)
  simp only [dependencies, presented, accepted, bind, Except.bind, canonical]

theorem dispatch_put (lowers : Links.AsciiLower library.unicode)
    (accepted : requireNodeToken settings (some token) = .ok ()) {id : Uuid} {data : Bytes}
    (whole : chunks.flatten = data) :
    (dispatch library settings (putRequest library token chunks id data) = .ok (.write id data) ∧
      data ≠ []) ∨
    ∃ raised, dispatch library settings (putRequest library token chunks id data) = .error raised ∧
      Stopped settings token chunks (.put id data) raised := by
  have passed : dependencies library settings (putRequest library token chunks id data) = .ok id :=
    admitted_dependencies lowers accepted rfl rfl
  -- what the checks on the body come to
  have checks : ∀ outcome, checkBody library settings (putRequest library token chunks id data)
      (asciiBytes (sha256Hex library data)) = outcome →
      dispatch library settings (putRequest library token chunks id data) =
        match outcome with
        | .error raised => .error raised
        | .ok data => .ok (.write id data) := by
    rintro outcome rfl
    simp only [dispatch, passed]
    rfl
  have body : StorageNode.body (putRequest library token chunks id data) = data := whole
  have plain : StorageNode.ascii (StorageNode.latin1 (asciiBytes (sha256Hex library data))) =
      true := by
    rw [sha256Hex, asciiBytes_latin1 (StorageNode.ascii_hex _)]
    exact StorageNode.ascii_hex _
  by_cases short : data.length < 10 ^ StorageNode.maxStrDigits
  · obtain ⟨readable, oversized, digest⟩ :=
      @put_checks library settings token chunks id data whole short
    obtain ⟨exceeds, empty, -, fits⟩ := StorageNode.checkBody_readable library settings
      (putRequest library token chunks id data) (asciiBytes (sha256Hex library data)) readable
    by_cases large : settings.maxShardBytes < data.length
    · refine .inr ⟨_, checks _ (exceeds (oversized.mpr large)), .unfit ?_ ?_⟩
      · exact .inr (.inl (by rw [whole]; exact large))
      · exact ⟨.inr (.inl rfl), rfl, rfl⟩
    · have within := mt oversized.mp large
      by_cases nothing : data = []
      · refine .inr ⟨_, checks _ (empty within (body.trans nothing)), .empty id ?_ rfl⟩
        rw [nothing]
      · have taken := (fits within (by rw [body]; exact nothing) plain).1 digest
        rw [body] at taken
        exact .inl ⟨checks _ taken, nothing⟩
  · have unread := StorageNode.checkBody_unreadable library settings
      (putRequest library token chunks id data) (asciiBytes (sha256Hex library data))
      (long_unreadable (Nat.not_lt.mp short))
    refine .inr ⟨_, checks _ unread, .unfit ?_ ?_⟩
    · exact .inr (.inr (by rw [whole]; exact Nat.not_lt.mp short))
    · exact ⟨.inr (.inr rfl), rfl, rfl⟩

theorem dispatch_sent (lowers : Links.AsciiLower library.unicode) {request : NodeRequest}
    {received : StorageNode.Request}
    (sent : shardRequest library token chunks request = some received) :
    (∃ call, dispatch library settings received = .ok call ∧ callOf request = some call) ∨
      ∃ raised, dispatch library settings received = .error raised ∧
        Stopped settings token chunks request raised := by
  by_cases accepted : requireNodeToken settings (some token) = .ok ()
  · cases request with
    | healthz => cases sent
    | get id =>
        cases sent
        left
        have passed : dependencies library settings (getRequest token id) = .ok id :=
          admitted_dependencies lowers accepted rfl rfl
        refine ⟨.read id, ?_, rfl⟩
        rw [dispatch, passed]
        rfl
    | delete id =>
        cases sent
        left
        have passed : dependencies library settings (deleteRequest token id) = .ok id :=
          admitted_dependencies lowers accepted rfl rfl
        refine ⟨.delete id, ?_, rfl⟩
        rw [dispatch, passed]
        rfl
    | put id data =>
        obtain ⟨whole, given⟩ := Option.ite_none_right_eq_some.mp sent
        cases given
        rcases @dispatch_put library settings token chunks lowers accepted id data whole with
          ⟨admitted, nonempty⟩ | stopped
        · exact .inl ⟨_, admitted, if_neg nonempty⟩
        · exact .inr stopped
  · exact .inr (dispatch_stranger accepted (sent_token sent) request)

end Requests
/-- The shared state of the services, beside the nodes with their handlers. A
handler's thread is the number of the request it serves. -/
structure Cluster where
  shared : Shared
  nodes : Uuid → NodeConfig

inductive Incident where
  /-- a node takes up a request, whose body comes in these chunks -/
  | receive (handle : Nat) (chunks : List Bytes)
  /-- a handler makes its next call to the file system -/
  | proceed (handle : Nat)
  /-- a handler that has the result of its call responds -/
  | respond (handle : Nat)
  /-- a handler is cut short -/
  | kill (handle : Nat)
  | outside (event : Event)

def Remote : Event → Bool
  | .tick _ | .lose _ | .operator _ _ | .register _ => true
  | _ => false

def Cluster.settled (cluster : Cluster) (index : Nat) (state : FlightState) : Cluster :=
  match cluster.shared.pending index with
  | some flight => { cluster with shared := cluster.shared.settle index flight state }
  | none => cluster

def Cluster.moved (library : Library) (levels : Uuid → Nat) (cluster : Cluster) (place : Uuid)
    (move : NodeMove) : Option (NodeLabel × Cluster) :=
  (advance (node library.sha256 (levels place)) (cluster.nodes place) move).map fun result =>
    (result.1, { cluster with nodes := Function.update cluster.nodes place result.2 })

def Cluster.received (library : Library) (settings : Uuid → StorageNode.Settings)
    (levels : Uuid → Nat) (token : Bytes) (cluster : Cluster) (index : Nat) (chunks : List Bytes)
    (flight : Flight Tid) : Option Cluster :=
  match (cluster.nodes flight.node).threads index with
  | .fresh =>
      if flight.request = .healthz then some (cluster.settled index (.answered (answer 200)))
      else (shardRequest library token chunks flight.request).bind fun received =>
        match dispatch library (settings flight.node) received with
        | .error raised => some
            (cluster.settled index (.answered (onWire (answered (.error raised)))))
        | .ok call => (cluster.moved library levels flight.node (.start index call)).map (·.2)
  | _ => none

def occur (platform : Platform) (library : Library) (settings : Uuid → StorageNode.Settings)
    (levels : Uuid → Nat) (token : Bytes) (cluster : Cluster) : Incident → Option Cluster
  | .receive index chunks => (cluster.shared.pending index).bind
      (cluster.received library settings levels token index chunks)
  | .proceed index => (cluster.shared.flights[index]?).bind fun flight =>
      (cluster.moved library levels flight.node
        (.act index fun disk request => some (disk.perform index request).1)).map (·.2)
  | .respond index => (cluster.shared.flights[index]?).bind fun flight =>
      (cluster.moved library levels flight.node (.finish index)).bind fun moved =>
        match moved.1 with
        | .finish _ call out => some (moved.2.settled index
            (.answered (onWire (answered (conclude library call out)))))
        | _ => none
  | .kill index => (cluster.shared.flights[index]?).bind fun flight =>
      (cluster.moved library levels flight.node (.fail index)).map fun moved =>
        moved.2.settled index .lost
  | .outside event =>
      if Remote event then
        (environment platform cluster.shared event).map fun shared =>
          { cluster with shared := shared }
      else none

def contended (platform : Platform) (library : Library) (settings : Uuid → StorageNode.Settings)
    (levels : Uuid → Nat) (token : Bytes) : System Cluster Tid Job Incident Op Res Outcome where
  program := (service platform).program
  starts := (service platform).starts
  restarts := (service platform).restarts
  exec thread cluster request answer :=
    (exec thread cluster.shared request answer).map fun shared => { cluster with shared := shared }
  env := occur platform library settings levels token

/-- How the service's own events show what the handlers do: one call of a
handler is the execution of its request, and the others are nothing. -/
inductive Explains (settings : Uuid → StorageNode.Settings) (token : Bytes) :
    Incident → List Event → Prop
  | admitted (handle : Nat) (chunks : List Bytes) :
      Explains settings token (.receive handle chunks) []
  | executed (handle : Nat) (chunks : List Bytes) :
      Explains settings token (.receive handle chunks) [.execute handle]
  | declined (handle : Nat) {chunks : List Bytes} {node : Uuid} {response : HttpResponse}
      (unfit : Unfit (settings node) token chunks) (declines : Declines response) :
      Explains settings token (.receive handle chunks) [.misreply handle response]
  | silent (handle : Nat) : Explains settings token (.proceed handle) []
  | effective (handle : Nat) : Explains settings token (.proceed handle) [.execute handle]
  | responded (handle : Nat) : Explains settings token (.respond handle) []
  | killed (handle : Nat) : Explains settings token (.kill handle) []
  /-- the client may give up without that -/
  | lost (handle : Nat) : Explains settings token (.outside (.lose handle)) []
  | outside (event : Event) : Explains settings token (.outside event) [event]

def Called (script : List (Tid × Uuid × NodeRequest)) (index : Nat) (call : Call) : Prop :=
  ∃ sent, script[index]? = some sent ∧ callOf sent.2.2 = some call

/-- A request as the nodes have it, and as the results about the service have it. -/
structure Mirrors (config : NodeConfig) (index : Nat) (flight other : Flight Tid) : Prop where
  sent : Wire.sent other = Wire.sent flight
  reply : other.reply = flight.reply
  answered : ∀ response, flight.state = .answered response → other.state = .answered response
  waiting : (∀ call rest, config.threads index ≠ .running call rest) → flight.state = .pending →
    other.state = .pending
  /-- it has been executed if its handler's one access is on the record -/
  running : ∀ call rest, config.threads index = .running call rest →
    callOf flight.request = some call ∧
    ((∀ access, (index, access) ∉ config.shared.log) → other.state = .pending) ∧
    ∀ access, (index, access) ∈ config.shared.log → other.state = .answered (told (event access))

/-- What the results about the service have in place of the payloads of a node. -/
def Stores (platform : Platform) (library : Library) (config : NodeConfig)
    (objects : Uuid → Option StoredShard) : Prop :=
  ∃ store, Linearization.Holds library.sha256 config.shared store ∧
    ∀ id, objects id = (store id).map fun data => ⟨platform.sha256Hex data, data⟩

structure Mirrored (nodes : Uuid → NodeConfig) (flights images : List (Flight Tid)) : Prop where
  count : images.length = flights.length
  each : ∀ index flight, flights[index]? = some flight →
    ∃ other, images[index]? = some other ∧ Mirrors (nodes flight.node) index flight other

structure Shadows (platform : Platform) (library : Library) (levels : Uuid → Nat)
    (script : List (Tid × Uuid × NodeRequest)) (cluster : Cluster) (twin : Shared) : Prop where
  same : twin = { cluster.shared with objects := twin.objects, flights := twin.flights }
  mirrored : Mirrored cluster.nodes cluster.shared.flights twin.flights
  unstarted : ∀ place index, cluster.shared.flights.length ≤ index →
    (cluster.nodes place).threads index = .fresh
  steady : ∀ place, ShardCalls.Steady library.sha256 (levels place) (Called script)
    (cluster.nodes place)
  stores : ∀ place, Stores platform library (cluster.nodes place) (twin.objects place)

section Refinement
variable {platform : Platform} {library : Library} {settings : Uuid → StorageNode.Settings}
  {levels : Uuid → Nat} {token : Bytes} {script : List (Tid × Uuid × NodeRequest)}
  {cluster after : Cluster} {twin : Shared}

theorem mirrors_frame {config later : NodeConfig} {index : Nat} {flight other : Flight Tid}
    (mirrors : Mirrors config index flight other)
    (threads : later.threads index = config.threads index)
    (log : ∀ access, (index, access) ∈ later.shared.log ↔ (index, access) ∈ config.shared.log) :
    Mirrors later index flight other where
  sent := mirrors.sent
  reply := mirrors.reply
  answered := mirrors.answered
  waiting := by
    rw [threads]
    exact mirrors.waiting
  running := by
    intro call rest running
    rw [threads] at running
    obtain ⟨named, pending, executed⟩ := mirrors.running call rest running
    refine ⟨named, fun unlogged => pending fun access logged => ?_, fun access logged => ?_⟩
    · exact unlogged access ((log access).mpr logged)
    · exact executed access ((log access).mp logged)

theorem mirrored_set {nodes later : Uuid → NodeConfig} {flights images : List (Flight Tid)}
    (mirrored : Mirrored nodes flights images) {index : Nat} {flight changed next : Flight Tid}
    (found : flights[index]? = some flight)
    (others : ∀ other moving image, other ≠ index → Mirrors (nodes moving.node) other moving image →
      Mirrors (later moving.node) other moving image)
    (mirrors : Mirrors (later changed.node) index changed next) :
    Mirrored later (flights.set index changed) (images.set index next) where
  count := by simpa using mirrored.count
  each := by
    intro other moving there
    have inside := (List.getElem?_eq_some_iff.mp found).1
    by_cases same : other = index
    · subst other
      rw [List.getElem?_set_self inside, Option.some.injEq] at there
      subst there
      exact ⟨next, List.getElem?_set_self (mirrored.count ▸ inside), mirrors⟩
    · rw [List.getElem?_set_ne (Ne.symm same)] at there
      obtain ⟨image, shown, mirror⟩ := mirrored.each other moving there
      exact ⟨image, (List.getElem?_set_ne (Ne.symm same)).trans shown,
        others other moving image same mirror⟩

theorem shadows_set (shadows : Shadows platform library levels script cluster twin) {place : Uuid}
    {index : Nat} {flight changed next : Flight Tid} {config : NodeConfig}
    {objects : Uuid → Uuid → Option StoredShard}
    (found : cluster.shared.flights[index]? = some flight) (here : flight.node = place)
    (sent : Wire.sent changed = Wire.sent flight)
    (threads : ∀ other, other ≠ index →
      config.threads other = (cluster.nodes place).threads other)
    (log : ∀ other access, other ≠ index →
      ((other, access) ∈ config.shared.log ↔ (other, access) ∈ (cluster.nodes place).shared.log))
    (steady : ShardCalls.Steady library.sha256 (levels place) (Called script) config)
    (stores : Stores platform library config (objects place))
    (elsewhere : ∀ other, other ≠ place → objects other = twin.objects other)
    (mirrors : Mirrors config index changed next) :
    Shadows platform library levels script
      ⟨{ cluster.shared with flights := cluster.shared.flights.set index changed },
        Function.update cluster.nodes place config⟩
      { twin with objects := objects, flights := twin.flights.set index next } := by
  have node : changed.node = place := by
    have same := congrArg (fun sent => sent.2.1) sent
    exact same.trans here
  -- Of the nodes only the one that moved can differ from its image.
  have updated : ∀ other, other = place ∧ Function.update cluster.nodes place config other = config ∨
      other ≠ place ∧
        Function.update cluster.nodes place config other = cluster.nodes other := by
    intro other
    by_cases near : other = place
    · exact .inl ⟨near, by rw [near, Function.update_self]⟩
    · exact .inr ⟨near, Function.update_of_ne near _ _⟩
  constructor
  case same => rw [shadows.same]
  case mirrored =>
    apply mirrored_set shadows.mirrored found
    · intro other moving image apart mirror
      dsimp only
      rcases updated moving.node with ⟨near, same⟩ | ⟨-, same⟩
      · rw [same]
        rw [near] at mirror
        exact mirrors_frame mirror (threads other apart) fun access => log other access apart
      · rw [same]
        exact mirror
    · dsimp only
      rw [node, Function.update_self]
      exact mirrors
  case unstarted =>
    intro other late beyond
    have inside := (List.getElem?_eq_some_iff.mp found).1
    rw [List.length_set] at beyond
    dsimp only
    rcases updated other with ⟨rfl, same⟩ | ⟨-, same⟩
    · rw [same, threads late (by omega)]
      exact shadows.unstarted _ late beyond
    · rw [same]
      exact shadows.unstarted other late beyond
  case steady =>
    intro other
    dsimp only
    rcases updated other with ⟨rfl, same⟩ | ⟨-, same⟩
    · rw [same]
      exact steady
    · rw [same]
      exact shadows.steady other
  case stores =>
    intro other
    dsimp only
    rcases updated other with ⟨rfl, same⟩ | ⟨apart, same⟩
    · rw [same]
      exact stores
    · rw [same, elsewhere other apart]
      exact shadows.stores other

theorem shadows_rest (shadows : Shadows platform library levels script cluster twin)
    {shared later : Shared} (kept : shared.flights = cluster.shared.flights)
    (same : later = { shared with objects := twin.objects, flights := twin.flights }) :
    Shadows platform library levels script { cluster with shared := shared } later := by
  subst same
  constructor
  case same => rfl
  case mirrored =>
    dsimp only
    rw [kept]
    exact shadows.mirrored
  case unstarted =>
    dsimp only
    rw [kept]
    exact shadows.unstarted
  case steady => exact shadows.steady
  case stores => exact shadows.stores

theorem set_found {flights : List (Flight Tid)} {index : Nat} {flight : Flight Tid}
    (found : flights[index]? = some flight) : flights.set index flight = flights := by
  obtain ⟨inside, same⟩ := List.getElem?_eq_some_iff.mp found
  rw [← same, List.set_getElem_self]

theorem settled_set {index : Nat} {flight : Flight Tid} (state : FlightState)
    (found : cluster.shared.flights[index]? = some flight) :
    cluster.settled index state = { cluster with shared := { cluster.shared with
      flights := cluster.shared.flights.set index
        (if flight.state = .pending then { flight with state := state } else flight) } } := by
  unfold Cluster.settled Shared.pending
  rw [found]
  by_cases pending : flight.state = .pending
  · simp only [if_pos pending]
    rfl
  · simp only [if_neg pending, set_found found]

theorem moved_step {place : Uuid} {move : NodeMove} {label : NodeLabel}
    (moved : cluster.moved library levels place move = some (label, after)) :
    ∃ config, advance (node library.sha256 (levels place)) (cluster.nodes place) move =
        some (label, config) ∧ Step (node library.sha256 (levels place)) (cluster.nodes place) label
          config ∧
      after = { cluster with nodes := Function.update cluster.nodes place config } := by
  obtain ⟨⟨_, config⟩, advanced, same⟩ := Option.map_eq_some_iff.mp moved
  cases same
  exact ⟨config, advanced, advance_step _ _ _ _ _ advanced, rfl⟩

/-- A step of one handler leaves the others at the node where they are. -/
theorem step_apart {sha256 : Bytes → Bytes} {depth index : Nat} {before later : NodeConfig}
    {label : NodeLabel} {Called : Nat → Call → Prop}
    (taken : Step (node sha256 depth) before label later) (mine : RelyGuarantee.By index label)
    (kept : RelyGuarantee.Kept (ShardCalls.contract sha256 depth Called) before label later) :
    (∀ other, other ≠ index → later.threads other = before.threads other) ∧
      ∀ other access, other ≠ index →
        ((other, access) ∈ later.shared.log ↔ (other, access) ∈ before.shared.log) := by
  constructor
  · intro other apart
    apply RelyGuarantee.step_other taken
    cases label with
    | env _ => exact mine.elim
    | _ =>
        obtain rfl : _ = index := mine
        exact fun same => apart same.symm
  · intro other access apart
    cases label with
    | env _ => exact mine.elim
    | act mover request answer =>
        obtain rfl : mover = index := mine
        rcases (ShardStore.move_effect kept).log with same | ⟨_, same, -⟩
        · rw [same]
        · rw [same, List.mem_append, List.mem_singleton]
          constructor
          · rintro (there | new)
            · exact there
            · cases new
              exact absurd rfl apart
          · exact .inl
    | start _ _ => rw [show later.shared = before.shared from kept]
    | fail _ => rw [show later.shared = before.shared from kept]
    | finish _ _ _ => rw [kept.1]

theorem script_flight (within : Wire.wire cluster.shared <+: script) {index : Nat}
    {flight : Flight Tid} (found : cluster.shared.flights[index]? = some flight) :
    script[index]? = some (Wire.sent flight) := by
  obtain ⟨rest, rfl⟩ := within
  have inside := (List.getElem?_eq_some_iff.mp found).1
  rw [List.getElem?_append_left (by simpa [Wire.wire] using inside), Wire.wire, List.getElem?_map,
    found, Option.map_some]

theorem fresh_pending {config : NodeConfig} {index : Nat} {flight other : Flight Tid}
    (mirrors : Mirrors config index flight other) (fresh : config.threads index = .fresh)
    (waits : flight.state = .pending) : other.state = .pending := by
  apply mirrors.waiting _ waits
  rintro call rest running
  rw [fresh] at running
  cases running

theorem pending_image (shadows : Shadows platform library levels script cluster twin) {index : Nat}
    {flight : Flight Tid} (pending : cluster.shared.pending index = some flight)
    (fresh : (cluster.nodes flight.node).threads index = .fresh) :
    ∃ other, twin.pending index = some other ∧ Mirrors (cluster.nodes flight.node) index flight other
      := by
  obtain ⟨found, waits⟩ := Wire.pending_found pending
  obtain ⟨other, shown, mirrors⟩ := shadows.mirrored.each index flight found
  have waiting : other.state = .pending := fresh_pending mirrors fresh waits
  refine ⟨other, ?_, mirrors⟩
  rw [Shared.pending, shown]
  exact if_pos waiting

theorem answered_shadows (shadows : Shadows platform library levels script cluster twin)
    {index : Nat} {flight other : Flight Tid} (pending : cluster.shared.pending index = some flight)
    (fresh : (cluster.nodes flight.node).threads index = .fresh)
    (mirrors : Mirrors (cluster.nodes flight.node) index flight other) (response : HttpResponse) :
    Shadows platform library levels script (cluster.settled index (.answered response))
      (twin.settle index other (.answered response)) := by
  obtain ⟨found, waits⟩ := Wire.pending_found pending
  have image : Mirrors (cluster.nodes flight.node) index
      { flight with state := .answered response } { other with state := .answered response } := by
    constructor
    case sent => exact mirrors.sent
    case reply => exact mirrors.reply
    case answered => exact fun _ same => same
    case waiting => exact fun _ same => by cases same
    case running =>
      intro call rest running
      rw [fresh] at running
      cases running
  have sent : Wire.sent { flight with state := .answered response } = Wire.sent flight := rfl
  have set := shadows_set shadows found rfl sent (fun _ _ => rfl) (fun _ _ _ => Iff.rfl)
    (shadows.steady flight.node) (shadows.stores flight.node) (fun _ _ => rfl) image
  rw [Function.update_eq_self] at set
  rw [settled_set _ found, if_pos waits]
  exact set

theorem store_same (shared : Shared) (place id : Uuid) :
    shared.store place id (shared.objects place id) = shared := by
  have objects : (fun other shardId => if other = place ∧ shardId = id then
      shared.objects place id else shared.objects other shardId) = shared.objects := by
    funext other shardId
    by_cases here : other = place ∧ shardId = id
    · rw [if_pos here, here.1, here.2]
    · rw [if_neg here]
  rw [Shared.store, objects]

theorem begun_shadows (digests : ∀ data, (library.sha256 data).length = digestSize)
    (within : Wire.wire cluster.shared <+: script)
    (shadows : Shadows platform library levels script cluster twin) {index : Nat}
    {flight : Flight Tid} {call : Call} {label : NodeLabel}
    (pending : cluster.shared.pending index = some flight)
    (fresh : (cluster.nodes flight.node).threads index = .fresh)
    (named : callOf flight.request = some call)
    (moved : cluster.moved library levels flight.node (.start index call) = some (label, after)) :
    Shadows platform library levels script after twin := by
  obtain ⟨found, waits⟩ := Wire.pending_found pending
  obtain ⟨other, shown, mirrors⟩ := shadows.mirrored.each index flight found
  obtain ⟨config, advanced, taken, rfl⟩ := moved_step moved
  simp only [advance, Option.ite_none_right_eq_some, Option.some.injEq, Prod.mk.injEq] at advanced
  obtain ⟨-, rfl, set⟩ := advanced
  have begun : config.threads index =
      .running call ((node library.sha256 (levels flight.node)).program call) := by
    rw [← set]
    exact Function.update_self _ _ _
  have called : Called script index call :=
    ⟨_, script_flight within found, named⟩
  obtain ⟨steady, kept⟩ := ShardCalls.step_steady digests (shadows.steady flight.node) taken
    (fun thread asked same => by cases same; exact called) (fun crash same => by cases same)
  obtain ⟨threads, log⟩ := step_apart taken rfl kept
  have unlogged := ((shadows.steady flight.node).fresh index fresh).unlogged
  have still : config.shared = (cluster.nodes flight.node).shared := kept
  have image : Mirrors config index flight other := by
    constructor
    case sent => exact mirrors.sent
    case reply => exact mirrors.reply
    case answered => exact mirrors.answered
    case waiting => exact fun idle => absurd begun (idle _ _)
    case running =>
      intro job rest running
      cases begun.symm.trans running
      refine ⟨named, fun _ => fresh_pending mirrors fresh waits, ?_⟩
      intro access logged
      rw [still] at logged
      exact absurd (List.mem_map_of_mem logged) unlogged
  have stores : Stores platform library config (twin.objects flight.node) := by
    rw [Stores, still]
    exact shadows.stores flight.node
  have set := shadows_set shadows found rfl rfl threads log steady stores
    (fun _ _ => rfl) image
  rw [set_found found, set_found shown] at set
  exact set

theorem advance_act {place : Uuid} {index : Nat} {config later : NodeConfig} {label : NodeLabel}
    {oracle : Disk → (request : Storage.Op) → Option (Storage.Res request)}
    (advanced : advance (node library.sha256 (levels place)) config (.act index oracle) =
      some (label, later)) :
    RelyGuarantee.By index label ∧ (∃ request answer, label = .act index request answer) ∧
      ∃ call request next rest, config.threads index = .running call (.op request next) ∧
        later.threads index = .running call rest := by
  simp only [advance] at advanced
  split at advanced
  · rename_i call request next at_op
    simp only [Option.bind_eq_some_iff, Option.map_eq_some_iff, Prod.mk.injEq] at advanced
    obtain ⟨answer, -, disk, -, rfl, rfl⟩ := advanced
    exact ⟨rfl, ⟨request, answer, rfl⟩, call, request, next, next answer, at_op,
      Function.update_self _ _ _⟩
  · cases advanced

/-- A call that does not touch an entry is nothing, and the one that does is the
execution of the request. -/
theorem proceeded_shadows (digests : ∀ data, (library.sha256 data).length = digestSize)
    (within : Wire.wire cluster.shared <+: script)
    (shadows : Shadows platform library levels script cluster twin) {index : Nat}
    {flight : Flight Tid} {label : NodeLabel}
    {oracle : Disk → (request : Storage.Op) → Option (Storage.Res request)}
    (found : cluster.shared.flights[index]? = some flight)
    (moved : cluster.moved library levels flight.node (.act index oracle) = some (label, after)) :
    Shadows platform library levels script after twin ∨ ∃ other, twin.pending index = some other ∧
      Shadows platform library levels script after (twin.execute platform index other) := by
  obtain ⟨other, shown, mirrors⟩ := shadows.mirrored.each index flight found
  obtain ⟨config, advanced, taken, rfl⟩ := moved_step moved
  obtain ⟨mine, ⟨request, answer, rfl⟩, call, _, _, rest, at_op, at_rest⟩ := advance_act advanced
  obtain ⟨named, pending, executed⟩ := mirrors.running call _ at_op
  obtain ⟨steady, kept⟩ := ShardCalls.step_steady digests (shadows.steady flight.node) taken
    (fun _ _ same => by cases same) (fun _ same => by cases same)
  obtain ⟨threads, log⟩ := step_apart taken mine kept
  have move : ShardStore.Move library.sha256 (Called script) index
      (cluster.nodes flight.node).shared config.shared := kept
  obtain ⟨store, holds, objects⟩ := shadows.stores flight.node
  rcases Linearization.move_serves digests (shadows.steady flight.node).all.inv move holds with
    ⟨same, still⟩ | ⟨access, next, grown, ⟨asked, out, called, answers⟩, serves, still⟩
  · left
    have image : Mirrors config index flight other := by
      constructor
      case sent => exact mirrors.sent
      case reply => exact mirrors.reply
      case answered => exact mirrors.answered
      case waiting => exact fun idle => absurd at_rest (idle _ _)
      case running =>
        intro job left running
        cases at_rest.symm.trans running
        rw [same]
        exact ⟨named, pending, executed⟩
    have set := shadows_set shadows found rfl rfl threads log steady ⟨store, still, objects⟩
      (fun _ _ => rfl) image
    rw [set_found found, set_found shown] at set
    exact set
  · right
    -- the call on the record is the one the request asks for
    obtain ⟨sent, scripted, wanted⟩ := called
    obtain rfl := Option.some.inj ((script_flight within found).symm.trans scripted)
    obtain rfl := Option.some.inj (named.symm.trans wanted)
    have unlogged : ∀ access, (index, access) ∉ (cluster.nodes flight.node).shared.log := by
      intro earlier logged
      have once := steady.all.inv.once
      rw [grown, List.map_append, List.nodup_append] at once
      exact once.2.2 index (List.mem_map_of_mem logged) index (by simp) rfl
    have waits := pending unlogged
    obtain ⟨id, shard, elsewhere, served⟩ :=
      @serves_serve platform library store next flight.request call out _ named answers serves
    have asks : other.request = flight.request ∧ other.node = flight.node := by
      have same := mirrors.sent
      simp only [Wire.sent, Prod.mk.injEq] at same
      exact ⟨same.2.2, same.2.1⟩
    have image : Mirrors config index flight
        { other with state := .answered (told (event access)) } := by
      constructor
      case sent => exact mirrors.sent
      case reply => exact mirrors.reply
      case answered =>
        intro response answered
        have there := mirrors.answered response answered
        rw [waits] at there
        cases there
      case waiting => exact fun idle => absurd at_rest (idle _ _)
      case running =>
        intro job left running
        cases at_rest.symm.trans running
        rw [grown]
        refine ⟨named, fun none => absurd (List.mem_append_right _ (by simp)) (none access), ?_⟩
        intro found logged
        rcases List.mem_append.mp logged with earlier | now
        · exact absurd earlier (unlogged found)
        · cases List.mem_singleton.mp now
          rfl
    refine ⟨other, ?_, ?_⟩
    · rw [Shared.pending, shown]
      exact if_pos waits
    · have changed : Stores platform library config ((twin.store flight.node id
          ((next id).map fun data => ⟨platform.sha256Hex data, data⟩)).objects flight.node) := by
        refine ⟨next, still, fun shardId => ?_⟩
        by_cases same : shardId = id
        · rw [same, Objects.store_self]
        · rw [Objects.store_other _ _ fun both => same both.2, objects, elsewhere shardId same]
      have set := shadows_set shadows found rfl rfl threads log steady changed
        (fun place apart => by
          funext shardId
          exact Objects.store_other _ _ fun both => apart both.1) image
      rw [set_found found] at set
      unfold Shared.execute
      rw [asks.1, shard, asks.2]
      dsimp only
      rw [objects, served]
      exact set

/-- A handler has come to its end: its client, if it still waits, is told what
the request was executed with, or nothing. -/
theorem ended_shadows (digests : ∀ data, (library.sha256 data).length = digestSize)
    (shadows : Shadows platform library levels script cluster twin) {index : Nat}
    {flight : Flight Tid} {label : NodeLabel} {config : NodeConfig} {state : FlightState}
    (found : cluster.shared.flights[index]? = some flight)
    (taken : Step (node library.sha256 (levels flight.node)) (cluster.nodes flight.node) label config)
    (mine : RelyGuarantee.By index label) (ends : ∀ call, label ≠ .start index call)
    (still : config.shared = (cluster.nodes flight.node).shared)
    (gone : config.threads index = .ended) (answered : state ≠ .pending)
    (tells : ∀ response other, state = .answered response →
      Mirrors (cluster.nodes flight.node) index flight other →
      RelyGuarantee.Kept (ShardCalls.contract library.sha256 (levels flight.node) (Called script))
        (cluster.nodes flight.node) label config → other.state = .answered response) :
    Shadows platform library levels script (Cluster.settled
      { cluster with nodes := Function.update cluster.nodes flight.node config } index state)
      twin := by
  obtain ⟨other, shown, mirrors⟩ := shadows.mirrored.each index flight found
  have started : ∀ thread call, label = .start thread call → Called script thread call := by
    rintro thread call rfl
    obtain rfl : thread = index := mine
    exact absurd rfl (ends call)
  have calm : ∀ crash, label ≠ .env crash := by
    rintro crash rfl
    exact mine
  obtain ⟨steady, kept⟩ :=
    ShardCalls.step_steady digests (shadows.steady flight.node) taken started calm
  obtain ⟨threads, log⟩ := step_apart taken mine kept
  -- What has ended has nothing left to mirror but its answer.
  have settled : ∀ changed : Flight Tid, Wire.sent changed = Wire.sent flight →
      changed.reply = flight.reply → changed.state ≠ .pending →
      (∀ response, changed.state = .answered response → other.state = .answered response) →
      Mirrors config index changed other := by
    intro changed same reply done told
    constructor
    case sent => rw [mirrors.sent, same]
    case reply => rw [mirrors.reply, reply]
    case answered => exact told
    case waiting => exact fun _ waits => absurd waits done
    case running =>
      intro call rest running
      rw [gone] at running
      cases running
  have image : Mirrors config index
      (if flight.state = .pending then { flight with state := state } else flight) other := by
    by_cases pending : flight.state = .pending
    · rw [if_pos pending]
      exact settled _ rfl rfl answered fun response same => tells response other same mirrors kept
    · rw [if_neg pending]
      exact settled _ rfl rfl pending mirrors.answered
  have stores : Stores platform library config (twin.objects flight.node) := by
    rw [Stores, still]
    exact shadows.stores flight.node
  have sent : Wire.sent (if flight.state = .pending then { flight with state := state } else flight) =
      Wire.sent flight := by
    split
    · rfl
    · rfl
  have set := shadows_set shadows found rfl sent threads log steady stores (fun _ _ => rfl) image
  rw [set_found shown] at set
  rw [settled_set state (by exact found)]
  exact set

theorem responded_shadows (digests : ∀ data, (library.sha256 data).length = digestSize)
    (shadows : Shadows platform library levels script cluster twin) {index : Nat}
    {flight : Flight Tid} {label : NodeLabel}
    (found : cluster.shared.flights[index]? = some flight)
    (moved : cluster.moved library levels flight.node (.finish index) = some (label, after)) :
    ∃ call out, label = .finish index call out ∧
      Shadows platform library levels script
        (after.settled index (.answered (onWire (answered (conclude library call out))))) twin := by
  obtain ⟨config, advanced, taken, rfl⟩ := moved_step moved
  simp only [advance] at advanced
  split at advanced
  · rename_i call out at_ret
    simp only [Option.some.injEq, Prod.mk.injEq] at advanced
    obtain ⟨rfl, rfl⟩ := advanced
    refine ⟨call, out, rfl, ?_⟩
    have replied : FlightState.answered (onWire (answered (conclude library call out))) ≠
        .pending := by
      rintro ⟨⟩
    apply ended_shadows digests shadows found taken rfl (fun call same => by cases same) rfl
      (Function.update_self _ _ _) replied
    rintro response other ⟨rfl⟩ mirrors ⟨-, done⟩
    -- its access is on the record, and the request was executed with it
    obtain ⟨access, logged, answers⟩ := done.logged
    obtain ⟨-, -, executed⟩ := mirrors.running call _ at_ret
    rw [executed access logged, conclude_told answers]
  · cases advanced

theorem killed_shadows (digests : ∀ data, (library.sha256 data).length = digestSize)
    (shadows : Shadows platform library levels script cluster twin) {index : Nat}
    {flight : Flight Tid} {label : NodeLabel}
    (found : cluster.shared.flights[index]? = some flight)
    (moved : cluster.moved library levels flight.node (.fail index) = some (label, after)) :
    Shadows platform library levels script (after.settled index .lost) twin := by
  obtain ⟨config, advanced, taken, rfl⟩ := moved_step moved
  simp only [advance] at advanced
  split at advanced
  · simp only [Option.some.injEq, Prod.mk.injEq] at advanced
    obtain ⟨rfl, rfl⟩ := advanced
    have silent : FlightState.lost ≠ .pending := by
      rintro ⟨⟩
    exact ended_shadows digests shadows found taken rfl (fun call same => by cases same) rfl
      (Function.update_self _ _ _) silent fun _ _ same => by cases same
  · cases advanced

theorem lost_shadows (shadows : Shadows platform library levels script cluster twin) {index : Nat}
    {flight : Flight Tid} (pending : cluster.shared.pending index = some flight) :
    Shadows platform library levels script
      { cluster with shared := cluster.shared.settle index flight .lost } twin := by
  obtain ⟨found, waits⟩ := Wire.pending_found pending
  obtain ⟨other, shown, mirrors⟩ := shadows.mirrored.each index flight found
  have image : Mirrors (cluster.nodes flight.node) index { flight with state := .lost } other := by
    constructor
    case sent => exact mirrors.sent
    case reply => exact mirrors.reply
    case answered => exact fun _ same => by cases same
    case waiting => exact fun _ same => by cases same
    case running => exact mirrors.running
  have sent : Wire.sent { flight with state := .lost } = Wire.sent flight := rfl
  have set := shadows_set shadows found rfl sent (fun _ _ => rfl) (fun _ _ _ => Iff.rfl)
    (shadows.steady flight.node) (shadows.stores flight.node) (fun _ _ => rfl) image
  rw [Function.update_eq_self, set_found shown] at set
  exact set

theorem received_shadows (lowers : Links.AsciiLower library.unicode)
    (digests : ∀ data, (library.sha256 data).length = digestSize)
    (within : Wire.wire cluster.shared <+: script)
    (shadows : Shadows platform library levels script cluster twin) {index : Nat}
    {chunks : List Bytes} {flight : Flight Tid}
    (pending : cluster.shared.pending index = some flight)
    (done : cluster.received library settings levels token index chunks flight = some after) :
    ∃ events next, Run (fun state event next => environment platform state event = some next) twin
        events next ∧ Explains settings token (.receive index chunks) events ∧
      Shadows platform library levels script after next := by
  unfold Cluster.received at done
  split at done
  · rename_i fresh
    obtain ⟨other, waiting, mirrors⟩ := pending_image shadows pending fresh
    have asks : other.request = flight.request := congrArg (fun sent => sent.2.2) mirrors.sent
    by_cases probe : flight.request = .healthz
    · rw [if_pos probe] at done
      cases done
      refine ⟨[.execute index], _, run_single (Option.map_eq_some_iff.mpr ⟨other, waiting, rfl⟩),
        .executed index chunks, ?_⟩
      have told := answered_shadows shadows pending fresh mirrors (answer 200)
      rw [Shared.execute, asks, probe]
      exact told
    · rw [if_neg probe] at done
      obtain ⟨received, sent, next⟩ := Option.bind_eq_some_iff.mp done
      rcases @dispatch_sent library (settings flight.node) token chunks lowers flight.request received
        sent with ⟨call, admitted, named⟩ | ⟨raised, stopped, why⟩
      · rw [admitted] at next
        obtain ⟨⟨label, _⟩, moved, rfl⟩ := Option.map_eq_some_iff.mp next
        exact ⟨[], twin, .refl, .admitted index chunks,
          begun_shadows digests within shadows pending fresh named moved⟩
      · rw [stopped] at next
        cases next
        have told := answered_shadows shadows pending fresh mirrors
          (onWire (answered (.error raised)))
        cases why with
        | unfit unfit declines =>
            exact ⟨[.misreply index _], _,
              run_single (Option.map_eq_some_iff.mpr ⟨other, waiting, rfl⟩),
              .declined index unfit declines, told⟩
        | empty id nothing status =>
            refine ⟨[.execute index], _,
              run_single (Option.map_eq_some_iff.mpr ⟨other, waiting, rfl⟩),
              .executed index chunks, ?_⟩
            rw [Shared.execute, asks, nothing]
            dsimp only [NodeRequest.shard, serve]
            rw [if_pos rfl, store_same, ← status]
            exact told
  · cases done

/-- Whatever happens to handlers, the service's own events show it. -/
theorem occur_shadows (lowers : Links.AsciiLower library.unicode)
    (digests : ∀ data, (library.sha256 data).length = digestSize)
    (within : Wire.wire cluster.shared <+: script)
    (shadows : Shadows platform library levels script cluster twin) {incident : Incident}
    (done : occur platform library settings levels token cluster incident = some after) :
    ∃ events next, Run (fun state event next => environment platform state event = some next) twin
        events next ∧ Explains settings token incident events ∧
      Shadows platform library levels script after next := by
  cases incident with
  | receive index chunks =>
      obtain ⟨flight, pending, received⟩ := Option.bind_eq_some_iff.mp done
      exact received_shadows lowers digests within shadows pending received
  | proceed index =>
      obtain ⟨flight, found, next⟩ := Option.bind_eq_some_iff.mp done
      obtain ⟨⟨label, _⟩, moved, rfl⟩ := Option.map_eq_some_iff.mp next
      -- One of the calls that a handler makes is where its request takes effect.
      rcases proceeded_shadows digests within shadows found moved with silent |
        ⟨other, waiting, executed⟩
      · exact ⟨[], twin, .refl, .silent index, silent⟩
      · exact ⟨[.execute index], _,
          run_single (Option.map_eq_some_iff.mpr ⟨other, waiting, rfl⟩), .effective index, executed⟩
  | respond index =>
      obtain ⟨flight, found, next⟩ := Option.bind_eq_some_iff.mp done
      obtain ⟨⟨label, _⟩, moved, told⟩ := Option.bind_eq_some_iff.mp next
      obtain ⟨call, out, rfl, responded⟩ := responded_shadows digests shadows found moved
      cases told
      exact ⟨[], twin, .refl, .responded index, responded⟩
  | kill index =>
      obtain ⟨flight, found, next⟩ := Option.bind_eq_some_iff.mp done
      obtain ⟨⟨label, _⟩, moved, rfl⟩ := Option.map_eq_some_iff.mp next
      exact ⟨[], twin, .refl, .killed index, killed_shadows digests shadows found moved⟩
  | outside event =>
      obtain ⟨remote, next⟩ := Option.ite_none_right_eq_some.mp done
      obtain ⟨shared, moved, rfl⟩ := Option.map_eq_some_iff.mp next
      have same := shadows.same
      cases event with
      | execute _ => cases remote
      | misreply _ _ => cases remote
      | damage _ _ _ => cases remote
      | lose index =>
          obtain ⟨flight, pending, rfl⟩ := Option.map_eq_some_iff.mp moved
          exact ⟨[], twin, .refl, .lost index, lost_shadows shadows pending⟩
      | tick seconds =>
          cases moved
          refine ⟨[.tick seconds], _, run_single rfl, .outside _, shadows_rest shadows rfl ?_⟩
          rw [same]
      | operator place status =>
          cases moved
          refine ⟨[.operator place status], _, run_single rfl, .outside _,
            shadows_rest shadows rfl ?_⟩
          rw [same]
      | register row =>
          obtain ⟨new, kept⟩ := Option.ite_none_right_eq_some.mp moved
          cases kept
          have there : row.id ∉ twin.db.nodes.map (·.id) := by
            rw [same]
            exact new
          refine ⟨[.register row], _, run_single (if_pos there), .outside _,
            shadows_rest shadows rfl ?_⟩
          rw [same]

theorem awaitReplies_mirrored {nodes : Uuid → NodeConfig} {flights images later : List (Flight Tid)}
    {handles : List Nat} {replies : List Reply} (mirrored : Mirrored nodes flights images)
    (done : awaitReplies flights handles replies = some later) :
    ∃ next, awaitReplies images handles replies = some next ∧ Mirrored nodes later next := by
  induction handles generalizing flights images replies with
  | nil =>
      cases replies with
      | nil =>
          cases done
          exact ⟨images, rfl, mirrored⟩
      | cons reply rest => cases done
  | cons handle rest ih =>
      cases replies with
      | nil => cases done
      | cons reply others =>
          simp only [awaitReplies] at done ⊢
          split at done
          · rename_i flight found
            obtain ⟨may, further⟩ := Option.ite_none_right_eq_some.mp done
            obtain ⟨other, shown, mirrors⟩ := mirrored.each handle flight found
            have allowed : other.mayReply reply = true := by
              cases reply with
              | none => rfl
              | some response =>
                  exact decide_eq_true (mirrors.answered response (of_decide_eq_true may))
            have told : Mirrors (nodes flight.node) handle { flight with reply := some reply }
                { other with reply := some reply } :=
              ⟨mirrors.sent, rfl, mirrors.answered, mirrors.waiting, mirrors.running⟩
            obtain ⟨next, replied, there⟩ :=
              ih (mirrored_set mirrored found (fun _ _ _ _ mirror => mirror) told) further
            refine ⟨next, ?_, there⟩
            rw [shown]
            dsimp only
            rw [if_pos allowed, replied]
          · cases done

theorem launch_mirrored {nodes : Uuid → NodeConfig} {flights images : List (Flight Tid)}
    (mirrored : Mirrored nodes flights images)
    (unstarted : ∀ place index, flights.length ≤ index → (nodes place).threads index = .fresh)
    (thread : Tid) (requests : List (Uuid × NodeRequest)) :
    Mirrored nodes (flights ++ launch thread requests) (images ++ launch thread requests) where
  count := by simp [mirrored.count]
  each := by
    intro index flight found
    by_cases old : index < flights.length
    · rw [List.getElem?_append_left old] at found
      rw [List.getElem?_append_left (by rw [mirrored.count]; exact old)]
      exact mirrored.each index flight found
    · have late := Nat.not_lt.mp old
      rw [List.getElem?_append_right late] at found
      rw [List.getElem?_append_right (by rw [mirrored.count]; exact late), mirrored.count]
      refine ⟨flight, found, ?_⟩
      constructor
      case sent => rfl
      case reply => rfl
      case answered => exact fun _ same => same
      case waiting => exact fun _ same => same
      case running =>
        intro call rest running
        rw [unstarted flight.node index late] at running
        cases running

theorem exec_shadows {thread : Tid} {request : Op} {reply : Res request} {shared : Shared}
    (shadows : Shadows platform library levels script cluster twin)
    (done : exec thread cluster.shared request reply = some shared) :
    ∃ next, exec thread twin request reply = some next ∧
      Shadows platform library levels script { cluster with shared := shared } next := by
  have guarded : ∀ (condition : Prop) [Decidable condition] (next : Shared),
      (if condition then some next else none) = some shared → condition ∧ next = shared := by
    intro condition _ next passed
    obtain ⟨holds, same⟩ := Option.ite_none_right_eq_some.mp passed
    exact ⟨holds, Option.some.inj same⟩
  have same := shadows.same
  -- Only flights may differ between the two: every other answer is read off what is the same.
  cases request with
  | send requests =>
      obtain ⟨handles, rfl⟩ := guarded _ _ done
      refine ⟨{ twin with flights := twin.flights ++ launch thread requests }, ?_, ?_⟩
      · rw [← shadows.mirrored.count] at handles
        exact if_pos handles
      · constructor
        case same => rw [same]
        case mirrored => exact launch_mirrored shadows.mirrored shadows.unstarted thread requests
        case unstarted =>
          intro place index late
          apply shadows.unstarted place index
          simp only [List.length_append] at late
          omega
        case steady => exact shadows.steady
        case stores => exact shadows.stores
  | await handles =>
      obtain ⟨flights, replied, rfl⟩ := Option.map_eq_some_iff.mp done
      obtain ⟨next, told, mirrored⟩ := awaitReplies_mirrored shadows.mirrored replied
      have length : flights.length = cluster.shared.flights.length := by
        have wire := congrArg List.length (Wire.awaitReplies_wire replied)
        simpa using wire
      refine ⟨{ twin with flights := next }, Option.map_eq_some_iff.mpr ⟨next, told, rfl⟩, ?_⟩
      constructor
      case same => rw [same]
      case mirrored => exact mirrored
      case unstarted =>
        intro place index late
        exact shadows.unstarted place index (length ▸ late)
      case steady => exact shadows.steady
      case stores => exact shadows.stores
  | commit writes =>
      obtain ⟨db, committed, rfl⟩ := Option.map_eq_some_iff.mp done
      refine ⟨{ twin with db := db, log := twin.log ++ [(thread, writes)] }, ?_,
        shadows_rest shadows rfl ?_⟩
      · refine Option.map_eq_some_iff.mpr ⟨db, ?_, rfl⟩
        rw [same]
        exact committed
      · rw [same]
  | uuid4 =>
      obtain ⟨new, rfl⟩ := guarded _ _ done
      refine ⟨{ twin with issued := (thread, reply) :: twin.issued }, ?_,
        shadows_rest shadows rfl ?_⟩
      · have fresh : reply ∉ twin.issued.map (·.2) := by
          rw [same]
          exact new
        exact if_pos fresh
      · rw [same]
  | _ =>
      obtain ⟨holds, rfl⟩ := guarded _ _ done
      refine ⟨twin, ?_, shadows⟩
      rw [same]
      exact if_pos holds

theorem settled_wire (index : Nat) (state : FlightState) :
    Wire.wire (cluster.settled index state).shared = Wire.wire cluster.shared := by
  unfold Cluster.settled
  split
  · rename_i flight pending
    exact Wire.settle_wire state (Wire.pending_found pending).1
  · rfl

theorem moved_wire {place : Uuid} {move : NodeMove} {label : NodeLabel}
    (moved : cluster.moved library levels place move = some (label, after)) :
    Wire.wire after.shared = Wire.wire cluster.shared := by
  obtain ⟨config, -, -, rfl⟩ := moved_step moved
  rfl

theorem occur_wire {incident : Incident}
    (done : occur platform library settings levels token cluster incident = some after) :
    Wire.wire after.shared = Wire.wire cluster.shared := by
  cases incident with
  | receive index chunks =>
      obtain ⟨flight, pending, received⟩ := Option.bind_eq_some_iff.mp done
      unfold Cluster.received at received
      split at received
      · split at received
        · cases received
          exact settled_wire index _
        · obtain ⟨_, sent, next⟩ := Option.bind_eq_some_iff.mp received
          split at next
          · cases next
            exact settled_wire index _
          · obtain ⟨⟨label, _⟩, moved, rfl⟩ := Option.map_eq_some_iff.mp next
            exact moved_wire moved
      · cases received
  | proceed index =>
      obtain ⟨flight, -, next⟩ := Option.bind_eq_some_iff.mp done
      obtain ⟨⟨label, _⟩, moved, rfl⟩ := Option.map_eq_some_iff.mp next
      exact moved_wire moved
  | respond index =>
      obtain ⟨flight, -, next⟩ := Option.bind_eq_some_iff.mp done
      obtain ⟨⟨label, _⟩, moved, told⟩ := Option.bind_eq_some_iff.mp next
      dsimp only at told
      split at told
      · cases told
        rw [settled_wire, moved_wire moved]
      · cases told
  | kill index =>
      obtain ⟨flight, -, next⟩ := Option.bind_eq_some_iff.mp done
      obtain ⟨⟨label, _⟩, moved, rfl⟩ := Option.map_eq_some_iff.mp next
      rw [settled_wire, moved_wire moved]
  | outside event =>
      obtain ⟨-, next⟩ := Option.ite_none_right_eq_some.mp done
      obtain ⟨shared, moved, rfl⟩ := Option.map_eq_some_iff.mp next
      exact Wire.environment_wire event moved

theorem step_wire {before later : Config Cluster Tid Job Op Res Outcome}
    {label : Label Tid Job Incident Op Res Outcome}
    (taken : Step (contended platform library settings levels token) before label later) :
    Wire.wire before.shared.shared <+: Wire.wire later.shared.shared := by
  cases taken with
  | act at_op done =>
      obtain ⟨shared, answered, rfl⟩ := Option.map_eq_some_iff.mp done
      rw [Wire.exec_wire answered]
      exact List.prefix_append _ _
  | env done => rw [occur_wire done]
  | start _ _ | fail _ | finish _ => exact List.prefix_refl _

theorem contended_implements (lowers : Links.AsciiLower library.unicode)
    (digests : ∀ data, (library.sha256 data).length = digestSize) :
    Implements (contended platform library settings levels token) (service platform)
      (fun cluster => Wire.wire cluster.shared <+: script)
      (Shadows platform library levels script) (Explains settings token) where
  program _ := rfl
  starts _ _ may := may
  restarts _ may := may
  exec := by
    intro thread before twin request reply after _ shadows done
    obtain ⟨shared, answered, rfl⟩ := Option.map_eq_some_iff.mp done
    exact exec_shadows shadows answered
  env := by
    intro before twin incident after within shadows done
    exact occur_shadows lowers digests within shadows done

theorem start_shadows {clock : Nat} {nodes : Uuid → NodeConfig}
    (rest : ∀ place, Linearization.AtRest library.sha256 (levels place) (nodes place) fun _ => none)
    (fresh : ∀ place index, (nodes place).threads index = .fresh) :
    Shadows platform library levels script ⟨(deployed clock).shared, nodes⟩
      (deployed clock).shared where
  same := rfl
  mirrored := ⟨rfl, fun _ _ found => by cases found⟩
  unstarted place index _ := fresh place index
  steady place := (Linearization.rest_along (Called script) (rest place)).steady
  stores place := ⟨fun _ => none, (rest place).holds, fun _ => rfl⟩

end Refinement

def ready (clock : Nat) (nodes : Uuid → NodeConfig) : Config Cluster Tid Job Op Res Outcome where
  shared := ⟨(deployed clock).shared, nodes⟩
  threads := fun _ => .fresh

/-- What the service has seen of a run in which handlers overlap. -/
structure Reflects (settings : Uuid → StorageNode.Settings) (token : Bytes)
    (labels : List (Label Tid Job Incident Op Res Outcome))
    (config : Config Cluster Tid Job Op Res Outcome) (shown : List (List ServiceLabel))
    (last : ServiceConfig) : Prop where
  /-- the clock, the database, its log and the ids that were drawn -/
  same : last.shared = { config.shared.shared with
    objects := last.shared.objects, flights := last.shared.flights }
  /-- what has gone out of a node is what the request was executed with -/
  answers : ∀ (index : Nat) flight response, config.shared.shared.flights[index]? = some flight →
    flight.state = .answered response → ∃ other, last.shared.flights[index]? = some other ∧
      Wire.sent other = Wire.sent flight ∧ other.state = .answered response
  /-- the files in the directories -/
  objects : ∀ place id,
    last.shared.objects place id = ((config.shared.nodes place).shared.shard id).map storedShard
  threads : last.threads = config.threads
  visible : shown.flatten.filterMap visible = labels.filterMap visible
  events : List.Forall₂ (Shown (Explains settings token)) labels shown

/-- However the handlers of the nodes overlap, and wherever they are cut short, the services and
the worker do what the results about the service speak of, where a request is executed at once. -/
theorem handlers_refine (platform : Platform) (library : Library)
    (lowers : Links.AsciiLower library.unicode)
    (digests : ∀ data, (library.sha256 data).length = digestSize)
    (same : ∀ data, platform.sha256Hex data = sha256Hex library data)
    (settings : Uuid → StorageNode.Settings) (levels : Uuid → Nat) (token : Bytes) (clock : Nat)
    (nodes : Uuid → NodeConfig)
    (rest : ∀ place, Linearization.AtRest library.sha256 (levels place) (nodes place) fun _ => none)
    (fresh : ∀ place index, (nodes place).threads index = .fresh)
    (labels : List (Label Tid Job Incident Op Res Outcome))
    (config : Config Cluster Tid Job Op Res Outcome)
    (run : Run (Step (contended platform library settings levels token)) (ready clock nodes) labels
      config) :
    ∃ shown last, Run (Step (service platform)) (deployed clock) shown.flatten last ∧
      Reflects settings token labels config shown last := by
  -- a handler's call is judged by its request, among all those that are ever sent
  have grows : ∀ before label later,
      Step (contended platform library settings levels token) before label later →
      Wire.wire later.shared.shared <+: Wire.wire config.shared.shared →
      Wire.wire before.shared.shared <+: Wire.wire config.shared.shared :=
    fun _ _ _ taken within => (step_wire taken).trans within
  have start : Alike (Shadows platform library levels (Wire.wire config.shared.shared))
      (ready clock nodes) (deployed clock) := ⟨start_shadows rest fresh, rfl⟩
  obtain ⟨shown, last, ran, events, related⟩ :=
    pool_simulated (contended_implements lowers digests)
      (run_within grows run (List.prefix_refl _)) start
  refine ⟨shown, last, ran, ?_⟩
  constructor
  case same => exact related.shared.same
  case answers =>
    intro index flight response found answered
    obtain ⟨other, image, mirrors⟩ := related.shared.mirrored.each index flight found
    exact ⟨other, image, mirrors.sent, mirrors.answered response answered⟩
  case objects =>
    intro place id
    obtain ⟨store, holds, objects⟩ := related.shared.stores place
    rw [objects, holds, Option.map_map]
    congr 1
    funext data
    rw [Function.comp_apply, storedShard, shardFile, ← digests data, List.take_left,
      List.drop_left, same, sha256Hex]
  case threads => exact related.threads
  case visible => exact shown_visible events
  case events => exact events

/-- Two uploads at once: on each of two nodes, two handlers take turns at every call. -/
def crossing : List (Move Cluster Tid Job Incident Op Res) :=
  let oracle (cluster : Cluster) (request : Op) : Option (Res request) :=
    prompt cluster.shared request
  let asks (thread : Tid) (count : Nat) : List (Move Cluster Tid Job Incident Op Res) :=
    List.replicate count (.act thread oracle)
  let handlers (incident : Nat → Incident) : List (Move Cluster Tid Job Incident Op Res) :=
    [0, 1, 2, 3].map fun handle => .env (incident handle)
  [.env (.outside (.register (healthyNode 1))), .env (.outside (.register (healthyNode 2))),
    .start (.api 0) (.upload smallUpload), .start (.api 1) (.upload smallUpload)] ++
  asks (.api 0) 8 ++ asks (.api 1) 8 ++ handlers (.receive · [[7]]) ++
  (List.replicate 8 (handlers .proceed)).flatten ++ handlers .respond ++
  asks (.api 0) 4 ++ asks (.api 1) 4

theorem handlers_refine_crossing : ∃ labels config shown last,
    Run (Step (contended Scrub.smallPlatform StorageNode.smallLibrary defaultNode (fun _ => 1)
      smallToken)) (ready 0 fun _ => Linearization.newNode) labels config ∧
    config.shared.shared.db.files.map (·.status) = [.available, .available] ∧
    Run (Step (service Scrub.smallPlatform)) (deployed 0) shown.flatten last ∧
    Reflects defaultNode smallToken labels config shown last := by
  obtain ⟨labels, config, run, passed⟩ := drive_reaches
    (contended Scrub.smallPlatform StorageNode.smallLibrary defaultNode (fun _ => 1) smallToken)
    (ready 0 fun _ => Linearization.newNode) crossing
    (fun _ config =>
      decide (config.shared.shared.db.files.map (·.status) = [.available, .available]))
    (by decide +kernel)
  obtain ⟨shown, last, ran, reflects⟩ := handlers_refine Scrub.smallPlatform
    StorageNode.smallLibrary Scrub.small_ascii StorageNode.smallLibrary_digests (fun _ => rfl)
    defaultNode (fun _ => 1) smallToken 0 (fun _ => Linearization.newNode)
    (fun _ => Linearization.newNode_rest _) (fun _ _ => rfl) labels config run
  exact ⟨labels, config, shown, last, run, of_decide_eq_true passed, ran, reflects⟩

end SecureFileSystem.SideBySide
