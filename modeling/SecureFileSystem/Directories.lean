import SecureFileSystem.Simulation
import SecureFileSystem.Storable

/-!
The service over the directories of its nodes. What a request meets there is a
file of bytes; the results about the service let a node execute it on a digest
and a payload. Whatever happens to the files, a run over directories is a run
of that service.
-/

namespace SecureFileSystem.Directories

open Base Uuid TextCodec Database Fleet Session Program Transition Execution Simulation
  SecureFileSystem.Configuration Service Storable
open Storage (Disk Name alone checked writeShard readShard deleteShard shardFile digestSize)
open StorageNode (Library Canonical Oversized Authorised TokenReadable requireNodeToken hex
  sha256Hex answered handle checkBody)
open Scrub (onWire getRequest)

/-- A file of a shard directory, as the digest and the payload it is read as. -/
def storedShard (raw : Bytes) : StoredShard := ⟨hex (raw.take digestSize), raw.drop digestSize⟩

theorem hex_injective : Function.Injective hex := by
  have digit : ∀ value, hexValue (hexDigit (value % 16)) = some (value % 16) := fun value =>
    UuidText.hexValue_digit _ (Nat.mod_lt _ (by decide))
  intro left
  induction left with
  | nil =>
      intro right same
      cases right with
      | nil => rfl
      | cons byte rest => cases same
  | cons byte rest ih =>
      intro right same
      cases right with
      | nil => cases same
      | cons other more =>
          simp only [hex, List.flatMap_cons, hexText, List.nil_append, List.cons_append,
            List.cons.injEq] at same
          obtain ⟨high, low, tail⟩ := same
          have highs := congrArg hexValue high
          have lows := congrArg hexValue low
          rw [digit, digit, Option.some.injEq] at highs lows
          have bytes : byte = other := by
            have small := byte.toNat_lt
            have bound := other.toNat_lt
            apply UInt8.toNat_inj.mp
            omega
          rw [bytes, ih tail]

section Handler
variable {platform : Platform} {library : Library} {settings : StorageNode.Settings}
  {token : Bytes} {disk : Disk} {chunks : List Bytes} (caller : Nat)

theorem checked_stored (digests : ∀ data, (library.sha256 data).length = digestSize)
    (same : ∀ data, platform.sha256Hex data = sha256Hex library data) (raw : Bytes) :
    checked library.sha256 raw =
      if platform.sha256Hex (storedShard raw).data ≠ (storedShard raw).digest then
        .error .shardCorrupted
      else .ok (storedShard raw).data := by
  have digest : platform.sha256Hex (storedShard raw).data = (storedShard raw).digest ↔
      library.sha256 (raw.drop digestSize) = raw.take digestSize := by
    rw [same]
    exact hex_injective.eq_iff
  rcases Scrub.checked_cases library raw with ⟨passes, whole⟩ | ⟨fails, broken⟩
  · rw [passes, if_neg (not_not.mpr (digest.mpr whole.2))]
    rfl
  · rw [fails, if_pos]
    intro stored
    have payload := digest.mp stored
    exact broken ⟨by rw [← payload, digests], payload⟩

theorem handle_get (lowers : Links.AsciiLower library.unicode)
    (digests : ∀ data, (library.sha256 data).length = digestSize)
    (same : ∀ data, platform.sha256Hex data = sha256Hex library data)
    (accepted : requireNodeToken settings (some token) = .ok ()) (id : Uuid) :
    onWire (answered (handle library settings caller (getRequest token id) disk).1) =
        (serve platform ((disk.shard id).map storedShard) (.get id)).1 ∧
      (handle library settings caller (getRequest token id) disk).2.shard = disk.shard := by
  obtain ⟨authorised, readable⟩ :=
    accepted_authorised accepted (@rfl _ (getRequest token id).nodeToken)
  have canonical : Canonical library (getRequest token id).shardId id :=
    (text_canonical lowers id id).mpr rfl
  rw [StorageNode.handle_admitted library settings caller _ disk id readable authorised canonical]
  obtain ⟨answer, kept⟩ := Storage.readShard_alone library.sha256 caller id disk
  dsimp only [getRequest]
  unfold StorageNode.getShard
  generalize alone caller (readShard library.sha256 id) disk = outcome at answer kept
  obtain ⟨out, after⟩ := outcome
  dsimp only at answer kept
  subst answer
  cases held : disk.shard id with
  | none => exact ⟨rfl, kept.trans rfl⟩
  | some raw =>
      dsimp only [Option.map_some, serve]
      rw [checked_stored digests same]
      by_cases damaged : platform.sha256Hex (storedShard raw).data ≠ (storedShard raw).digest
      · rw [if_pos damaged, if_pos damaged]
        exact ⟨rfl, kept⟩
      · rw [if_neg damaged, if_neg damaged]
        exact ⟨rfl, kept⟩

theorem handle_delete (lowers : Links.AsciiLower library.unicode)
    (accepted : requireNodeToken settings (some token) = .ok ()) (id : Uuid) :
    onWire (answered (handle library settings caller (deleteRequest token id) disk).1) =
        (serve platform ((disk.shard id).map storedShard) (.delete id)).1 ∧
      (handle library settings caller (deleteRequest token id) disk).2.shard =
        Function.update disk.shard id none := by
  have authorised := accepted_authorised accepted (@rfl _ (deleteRequest token id).nodeToken)
  have canonical : Canonical library (deleteRequest token id).shardId id :=
    (text_canonical lowers id id).mpr rfl
  rw [StorageNode.handle_admitted library settings caller _ disk id authorised.2 authorised.1
    canonical]
  obtain ⟨answer, left⟩ := Storage.deleteShard_alone caller id disk
  dsimp only [deleteRequest]
  unfold StorageNode.deleteShardEndpoint
  generalize alone caller (deleteShard id) disk = outcome at answer left
  obtain ⟨out, after⟩ := outcome
  dsimp only at answer left
  subst answer
  cases held : disk.shard id with
  | none => exact ⟨rfl, left⟩
  | some raw => exact ⟨rfl, left⟩

theorem handle_put (lowers : Links.AsciiLower library.unicode)
    (digests : ∀ data, (library.sha256 data).length = digestSize)
    (same : ∀ data, platform.sha256Hex data = sha256Hex library data)
    (accepted : requireNodeToken settings (some token) = .ok ()) (valid : disk.Valid) (id : Uuid)
    {data : Bytes} (whole : chunks.flatten = data) (fits : data.length ≤ settings.maxShardBytes)
    (short : data.length < 10 ^ StorageNode.maxStrDigits) :
    onWire (answered (handle library settings caller (putRequest library token chunks id data)
        disk).1) = (serve platform ((disk.shard id).map storedShard) (.put id data)).1 ∧
      ((handle library settings caller (putRequest library token chunks id data) disk).2.shard id).map
          storedShard = (serve platform ((disk.shard id).map storedShard) (.put id data)).2 := by
  have authorised := accepted_authorised accepted
    (@rfl _ (putRequest library token chunks id data).nodeToken)
  have canonical : Canonical library (putRequest library token chunks id data).shardId id :=
    (text_canonical lowers id id).mpr rfl
  obtain ⟨readable, oversized, digest⟩ :=
    @put_checks library settings token chunks id data whole short
  obtain ⟨-, empty, -, checks⟩ := StorageNode.checkBody_readable library settings
    (putRequest library token chunks id data) (asciiBytes (sha256Hex library data)) readable
  have taken : ¬ Oversized settings (putRequest library token chunks id data) := fun large =>
    Nat.not_lt.mpr fits (oversized.mp large)
  have body : StorageNode.body (putRequest library token chunks id data) = data := whole
  have plain : StorageNode.ascii (StorageNode.latin1 (asciiBytes (sha256Hex library data))) =
      true := by
    rw [sha256Hex, asciiBytes_latin1 (StorageNode.ascii_hex _)]
    exact StorageNode.ascii_hex _
  rw [StorageNode.handle_admitted library settings caller _ disk id authorised.2 authorised.1
    canonical]
  dsimp only [putRequest]
  unfold StorageNode.putShard
  -- The node refuses an empty body before it looks at the file.
  by_cases nothing : data = []
  · have refused := empty taken (body.trans nothing)
    simp only [putRequest] at refused ⊢
    rw [refused]
    simp only [serve, if_pos nothing]
    exact ⟨rfl, trivial⟩
  · have passed := (checks taken (by rw [body]; exact nothing) plain).1 digest
    rw [body] at passed
    simp only [putRequest] at passed ⊢
    rw [passed]
    obtain ⟨absent, present⟩ :=
      Storage.writeShard_alone library.sha256 caller id data disk valid
    dsimp only
    generalize alone caller (writeShard library.sha256 disk.levels id data) disk = outcome
      at absent present
    obtain ⟨out, after⟩ := outcome
    dsimp only at absent present
    cases held : disk.shard id with
    | none =>
        obtain ⟨rfl, stored⟩ := absent held
        simp only [serve, if_neg nothing, Option.map_none, stored, Function.update_self,
          Option.map_some, same]
        refine ⟨rfl, ?_⟩
        rw [storedShard, shardFile, ← digests data, List.take_left, List.drop_left, sha256Hex]
    | some raw =>
        obtain ⟨rfl, kept⟩ := present (by rw [held]; exact Option.some_ne_none raw)
        simp only [serve, if_neg nothing, Option.map_some, kept, held]
        exact ⟨rfl, trivial⟩

/-- A node that does not take the token, or not so long a body. -/
def Unfit (settings : StorageNode.Settings) (token : Bytes) (chunks : List Bytes) : Prop :=
  requireNodeToken settings (some token) ≠ .ok () ∨
    settings.maxShardBytes < chunks.flatten.length ∨
      10 ^ StorageNode.maxStrDigits ≤ chunks.flatten.length

/-- A refusal that says nothing about the shard. -/
def Declines (response : HttpResponse) : Prop :=
  (response.status = 401 ∨ response.status = 413 ∨ response.status = 500) ∧
    response.corrupt = false ∧ response.content = []

theorem sent_token {request : NodeRequest} {received : StorageNode.Request}
    (sent : shardRequest library token chunks request = some received) :
    received.nodeToken = some token := by
  cases request with
  | healthz => cases sent
  | get id =>
      cases sent
      rfl
  | delete id =>
      cases sent
      rfl
  | put id data =>
      obtain ⟨-, given⟩ := Option.ite_none_right_eq_some.mp sent
      cases given
      rfl

theorem handle_stranger (refused : requireNodeToken settings (some token) ≠ .ok ())
    {request : StorageNode.Request} (presented : request.nodeToken = some token) :
    Declines (onWire (answered (handle library settings caller request disk).1)) ∧
      (handle library settings caller request disk).2 = disk := by
  by_cases readable : TokenReadable settings request
  · have stranger : ¬ Authorised settings request := by
      intro authorised
      apply refused
      rw [← presented]
      exact (StorageNode.requireNodeToken_readable settings request readable).1 authorised
    rw [StorageNode.handle_unauthorised library settings caller request disk readable stranger]
    exact ⟨⟨.inl rfl, rfl, rfl⟩, rfl⟩
  · rw [StorageNode.handle_unreadable library settings caller request disk readable]
    exact ⟨⟨.inr (.inr rfl), rfl, rfl⟩, rfl⟩

theorem long_unreadable {id : Uuid} {data : Bytes}
    (long : 10 ^ StorageNode.maxStrDigits ≤ data.length) :
    ¬ StorageNode.LengthReadable (putRequest library token chunks id data) := by
  intro readable
  have digits : ¬ (asciiBytes (decimal data.length)).length ≤ StorageNode.maxStrDigits := by
    rw [asciiBytes, List.length_map]
    intro few
    have small := (decimal_length _ _ (by decide)).mp few
    omega
  have declared : asciiBytes (decimal data.length) ≠ [] := by
    intro empty
    rw [empty] at digits
    exact digits (Nat.zero_le _)
  exact digits (readable _ rfl
    (StorageNode.isdigit_decimal _ (decimal_readable _) declared)).2

theorem handle_large (lowers : Links.AsciiLower library.unicode)
    (accepted : requireNodeToken settings (some token) = .ok ()) (id : Uuid) {data : Bytes}
    (whole : chunks.flatten = data)
    (large : settings.maxShardBytes < data.length ∨
      10 ^ StorageNode.maxStrDigits ≤ data.length) :
    Declines (onWire (answered (handle library settings caller
        (putRequest library token chunks id data) disk).1)) ∧
      (handle library settings caller (putRequest library token chunks id data) disk).2 = disk := by
  have authorised := accepted_authorised accepted
    (@rfl _ (putRequest library token chunks id data).nodeToken)
  have canonical : Canonical library (putRequest library token chunks id data).shardId id :=
    (text_canonical lowers id id).mpr rfl
  rw [StorageNode.handle_admitted library settings caller _ disk id authorised.2 authorised.1
    canonical]
  dsimp only [putRequest]
  unfold StorageNode.putShard
  by_cases short : data.length < 10 ^ StorageNode.maxStrDigits
  · obtain ⟨readable, oversized, -⟩ :=
      @put_checks library settings token chunks id data whole short
    have refused := (StorageNode.checkBody_readable library settings
      (putRequest library token chunks id data) (asciiBytes (sha256Hex library data)) readable).1
      (oversized.mpr (large.resolve_right (Nat.not_le.mpr short)))
    simp only [putRequest] at refused ⊢
    rw [refused]
    exact ⟨⟨.inr (.inl rfl), rfl, rfl⟩, rfl⟩
  · have refused := StorageNode.checkBody_unreadable library settings
      (putRequest library token chunks id data) (asciiBytes (sha256Hex library data))
      (long_unreadable (Nat.not_lt.mp short))
    simp only [putRequest] at refused ⊢
    rw [refused]
    exact ⟨⟨.inr (.inr rfl), rfl, rfl⟩, rfl⟩

end Handler

inductive Incident where
  /-- a node deals with a request, whose body comes in these chunks -/
  | serve (handle caller : Nat) (chunks : List Bytes)
  /-- a shard's file is lost, or has another content from now on -/
  | damage (node shardId : Uuid) (content : Option Bytes)
  | outside (event : Event)

def Distant : Event → Bool
  | .execute _ | .damage _ _ _ => false
  | _ => true

def damaged (disk : Disk) (id : Uuid) : Option Bytes → Disk
  | none => disk.enter (.shard id) none
  | some content => Disk.enter
      { disk with made := disk.levels, files := disk.files ++ [⟨content, true, 0⟩] }
      (.shard id) (some disk.files.length)

/-- `/healthz` does not look at the directory. -/
def occur (platform : Platform) (library : Library) (nodes : Uuid → StorageNode.Settings)
    (token : Bytes) (world : World) : Incident → Option World
  | .serve index caller chunks => (world.shared.pending index).bind fun flight =>
      if flight.request = .healthz then
        some { world with shared := world.shared.settle index flight (.answered (answer 200)) }
      else (shardRequest library token chunks flight.request).map
        (world.served library nodes index caller flight)
  | .damage node id content => some { world with
      disks := Function.update world.disks node (damaged (world.disks node) id content) }
  | .outside event =>
      if Distant event then
        (environment platform world.shared event).map fun shared => { world with shared := shared }
      else none

/-- The services and the worker over the directories of the nodes. -/
def directories (platform : Platform) (library : Library) (nodes : Uuid → StorageNode.Settings)
    (token : Bytes) : System World Tid Job Incident Op Res Outcome where
  program := (service platform).program
  starts := (service platform).starts
  restarts := (service platform).restarts
  exec thread world request answer :=
    (exec thread world.shared request answer).map fun shared => { world with shared := shared }
  env := occur platform library nodes token

def contents (disks : Uuid → Disk) (node id : Uuid) : Option StoredShard :=
  ((disks node).shard id).map storedShard

def seen (world : World) : Shared := { world.shared with objects := contents world.disks }

/-- How the service's own events show what happens to the directories. -/
inductive Explains (nodes : Uuid → StorageNode.Settings) (token : Bytes) :
    Incident → List Event → Prop
  | executed (handle caller : Nat) (chunks : List Bytes) :
      Explains nodes token (.serve handle caller chunks) [.execute handle]
  | declined (handle caller : Nat) {chunks : List Bytes} {node : Uuid} {response : HttpResponse}
      (unfit : Unfit (nodes node) token chunks) (declines : Declines response) :
      Explains nodes token (.serve handle caller chunks) [.misreply handle response]
  | damaged (node id : Uuid) (content : Option Bytes) :
      Explains nodes token (.damage node id content) [.damage node id (content.map storedShard)]
  | outside (event : Event) : Explains nodes token (.outside event) [event]

section Refinement
variable {platform : Platform} {library : Library} {nodes : Uuid → StorageNode.Settings}
  {token : Bytes} {world after : World}

theorem damaged_valid {disk : Disk} (valid : disk.Valid) (id : Uuid) (content : Option Bytes) :
    (damaged disk id content).Valid := by
  cases content with
  | none =>
      exact Storage.enter_valid valid (fun file same => by cases same) (fun _ => rfl)
        fun file same => by cases same
  | some content =>
      have grown : Disk.Valid
          { disk with made := disk.levels, files := disk.files ++ [⟨content, true, 0⟩] } := by
        constructor
        · exact Nat.le_refl _
        · intro name file found
          exact (valid.known name file found).trans_le (by simp)
        · intro file late
          exact valid.fresh file (by simp at late; omega)
        · exact fun missing => absurd missing (Nat.lt_irrefl _)
      refine Storage.enter_valid grown ?_ ?_ ?_
      · rintro file ⟨rfl⟩
        simp
      · exact fun missing => absurd missing (Nat.lt_irrefl _)
      · exact fun file same => by cases same

theorem damaged_shard {disk : Disk} (valid : disk.Valid) (id : Uuid) (content : Option Bytes) :
    (damaged disk id content).shard = Function.update disk.shard id content := by
  funext other
  by_cases same : other = id
  · subst other
    rw [Function.update_self]
    cases content with
    | none => simp [damaged, Disk.shard, Disk.enter]
    | some content => simp [damaged, Disk.shard, Disk.enter, Disk.content]
  · have name : Name.shard other ≠ .shard id := by simpa using same
    rw [Function.update_of_ne same]
    cases content with
    | none =>
        simp only [damaged, Disk.shard, Disk.enter, Function.update_of_ne name]
        rfl
    | some content =>
        simp only [damaged, Disk.shard, Disk.enter, Function.update_of_ne name]
        cases entry : disk.entries (.shard other) with
        | none => rfl
        | some file =>
            have known := valid.known _ file entry
            simp [Disk.content, List.getElem?_append_left known]

theorem contents_update (disks : Uuid → Disk) (node id : Uuid) (disk : Disk)
    (elsewhere : ∀ other, other ≠ id → disk.shard other = (disks node).shard other) :
    contents (Function.update disks node disk) = fun other shardId =>
      if other = node ∧ shardId = id then (disk.shard id).map storedShard
      else contents disks other shardId := by
  funext other shardId
  unfold contents
  by_cases here : other = node
  · subst other
    by_cases same : shardId = id
    · subst shardId
      simp
    · simp [same, elsewhere shardId same]
  · simp [here]

theorem contents_kept (disks : Uuid → Disk) (node : Uuid) :
    contents (Function.update disks node (disks node)) = contents disks := by
  rw [Function.update_eq_self]

theorem serve_get (entry : Option StoredShard) (id : Uuid) :
    (serve platform entry (.get id)).2 = entry := by
  cases entry with
  | none => rfl
  | some stored =>
      unfold serve
      dsimp only
      split
      · rfl
      · rfl

theorem serve_delete (entry : Option StoredShard) (id : Uuid) :
    (serve platform entry (.delete id)).2 = none := by
  cases entry with
  | none => rfl
  | some stored => rfl

/-- A request that a node has dealt with was executed, or declined by a node that it does not
suit. -/
theorem served_seen (lowers : Links.AsciiLower library.unicode)
    (digests : ∀ data, (library.sha256 data).length = digestSize)
    (same : ∀ data, platform.sha256Hex data = sha256Hex library data)
    (valid : ∀ node, (world.disks node).Valid) (index caller : Nat) {flight : Flight Tid}
    {chunks : List Bytes} {received : StorageNode.Request}
    (sent : shardRequest library token chunks flight.request = some received) :
    seen (world.served library nodes index caller flight received) =
        (seen world).execute platform index flight ∨
      Unfit (nodes flight.node) token chunks ∧ ∃ response, Declines response ∧
        seen (world.served library nodes index caller flight received) =
          (seen world).settle index flight (.answered response) := by
  -- a refusal leaves the directory as it is
  have declined : ∀ {result : Except StorageNode.Raised StorageNode.Response × Disk},
      handle library (nodes flight.node) caller received (world.disks flight.node) = result →
      Declines (onWire (answered result.1)) ∧ result.2 = world.disks flight.node →
      ∃ response, Declines response ∧
        seen (world.served library nodes index caller flight received) =
          (seen world).settle index flight (.answered response) := by
    rintro result rfl ⟨declines, kept⟩
    refine ⟨_, declines, ?_⟩
    simp only [seen, World.served, kept, contents_kept]
    rfl
  have executed : ∀ {id : Uuid}, flight.request.shard = some id →
      onWire (answered (handle library (nodes flight.node) caller received
          (world.disks flight.node)).1) =
        (serve platform (contents world.disks flight.node id) flight.request).1 →
      ((handle library (nodes flight.node) caller received
          (world.disks flight.node)).2.shard id).map storedShard =
        (serve platform (contents world.disks flight.node id) flight.request).2 →
      seen (world.served library nodes index caller flight received) =
        (seen world).execute platform index flight := by
    intro id names answer stored
    obtain ⟨other, named, path⟩ := sent_shard sent
    obtain rfl := Option.some.inj (names.symm.trans named)
    have frame := (StorageNode.handle_frame library (nodes flight.node) caller received
      (world.disks flight.node) (valid flight.node)).2
    rw [path] at frame
    simp only [seen, World.served, Shared.execute, names]
    rw [contents_update world.disks flight.node id _ fun other apart =>
      frame other fun canonical => apart ((text_canonical lowers id other).mp canonical), answer,
      stored]
    rfl
  by_cases accepted : requireNodeToken (nodes flight.node) (some token) = .ok ()
  · obtain ⟨sender, node, request, state, reply⟩ := flight
    dsimp only at sent accepted declined executed ⊢
    cases request with
    | healthz => cases sent
    | get id =>
        cases sent
        left
        obtain ⟨answer, kept⟩ := handle_get caller lowers digests same accepted id
        refine executed rfl answer ?_
        rw [kept, serve_get]
        rfl
    | delete id =>
        cases sent
        left
        obtain ⟨answer, removed⟩ := handle_delete caller lowers accepted id
        refine executed rfl answer ?_
        rw [removed, serve_delete, Function.update_self]
        rfl
    | put id data =>
        obtain ⟨whole, given⟩ := Option.ite_none_right_eq_some.mp sent
        cases given
        by_cases large : (nodes node).maxShardBytes < data.length ∨
            10 ^ StorageNode.maxStrDigits ≤ data.length
        · right
          rw [Unfit, whole]
          exact ⟨.inr large, declined rfl (handle_large caller lowers accepted id whole large)⟩
        · left
          rw [not_or, Nat.not_lt, Nat.not_le] at large
          obtain ⟨answer, stored⟩ :=
            handle_put caller lowers digests same accepted (valid node) id whole large.1 large.2
          exact executed rfl answer stored
  · right
    exact ⟨.inl accepted, declined rfl (handle_stranger caller accepted (sent_token sent))⟩

/-- The threads do not see the objects but through their requests. -/
theorem exec_seen {thread : Tid} {request : Op} {reply : Res request} {shared : Shared}
    (done : exec thread world.shared request reply = some shared) :
    exec thread (seen world) request reply = some (seen { world with shared := shared }) := by
  have guarded : ∀ (condition : Prop) [Decidable condition] (next : Shared),
      (if condition then some next else none) = some shared → condition ∧ next = shared := by
    intro condition _ next passed
    obtain ⟨holds, same⟩ := Option.ite_none_right_eq_some.mp passed
    exact ⟨holds, Option.some.inj same⟩
  cases request with
  | commit writes =>
      obtain ⟨db, committed, rfl⟩ := Option.map_eq_some_iff.mp done
      exact Option.map_eq_some_iff.mpr ⟨db, committed, rfl⟩
  | await handles =>
      obtain ⟨flights, replied, rfl⟩ := Option.map_eq_some_iff.mp done
      exact Option.map_eq_some_iff.mpr ⟨flights, replied, rfl⟩
  | _ =>
      obtain ⟨holds, rfl⟩ := guarded _ _ done
      exact if_pos holds

/-- An event that leaves the directories alone. -/
theorem outside_seen {event : Event} {shared : Shared} (distant : Distant event = true)
    (done : environment platform world.shared event = some shared) :
    environment platform (seen world) event = some (seen { world with shared := shared }) := by
  cases event with
  | execute handle => cases distant
  | damage node id entry => cases distant
  | lose handle =>
      obtain ⟨flight, pending, rfl⟩ := Option.map_eq_some_iff.mp done
      exact Option.map_eq_some_iff.mpr ⟨flight, pending, rfl⟩
  | misreply handle response =>
      obtain ⟨flight, pending, rfl⟩ := Option.map_eq_some_iff.mp done
      exact Option.map_eq_some_iff.mpr ⟨flight, pending, rfl⟩
  | register node =>
      obtain ⟨new, same⟩ := Option.ite_none_right_eq_some.mp done
      cases same
      exact if_pos new
  | tick _ => cases done; rfl
  | operator _ _ => cases done; rfl

theorem occur_seen (lowers : Links.AsciiLower library.unicode)
    (digests : ∀ data, (library.sha256 data).length = digestSize)
    (same : ∀ data, platform.sha256Hex data = sha256Hex library data) {incident : Incident}
    (valid : ∀ node, (world.disks node).Valid)
    (done : occur platform library nodes token world incident = some after) :
    (∀ node, (after.disks node).Valid) ∧ ∃ event,
      environment platform (seen world) event = some (seen after) ∧
      Explains nodes token incident [event] := by
  have updated : ∀ (node : Uuid) (disk : Disk), disk.Valid →
      ∀ other, (Function.update world.disks node disk other).Valid := by
    intro node disk holds other
    by_cases here : other = node
    · subst other
      rw [Function.update_self]
      exact holds
    · rw [Function.update_of_ne here]
      exact valid other
  cases incident with
  | serve index caller chunks =>
      obtain ⟨flight, pending, served⟩ := Option.bind_eq_some_iff.mp done
      by_cases probe : flight.request = .healthz
      · rw [if_pos probe] at served
        cases served
        refine ⟨valid, .execute index, ?_, .executed index caller chunks⟩
        refine Option.map_eq_some_iff.mpr ⟨flight, pending, ?_⟩
        simp only [Shared.execute, probe]
        rfl
      -- The handler either does what the node does, or declines without a trace.
      · rw [if_neg probe] at served
        obtain ⟨received, sent, rfl⟩ := Option.map_eq_some_iff.mp served
        refine ⟨updated flight.node _ (StorageNode.handle_frame library (nodes flight.node) caller
          received _ (valid flight.node)).1, ?_⟩
        rcases served_seen lowers digests same valid index caller sent with executed |
          ⟨unfit, response, declines, settled⟩
        · exact ⟨.execute index, Option.map_eq_some_iff.mpr ⟨flight, pending, executed.symm⟩,
            .executed index caller chunks⟩
        · exact ⟨.misreply index response,
            Option.map_eq_some_iff.mpr ⟨flight, pending, settled.symm⟩,
            .declined index caller unfit declines⟩
  | damage node id content =>
      cases done
      refine ⟨updated node _ (damaged_valid (valid node) id content),
        .damage node id (content.map storedShard), ?_, .damaged node id content⟩
      have changed := damaged_shard (valid node) id content
      have elsewhere : ∀ other, other ≠ id →
          (damaged (world.disks node) id content).shard other = (world.disks node).shard other := by
        intro other apart
        rw [changed, Function.update_of_ne apart]
      simp only [environment, seen, contents_update world.disks node id _ elsewhere, changed,
        Function.update_self]
      rfl
  | outside event =>
      obtain ⟨distant, stepped⟩ := Option.ite_none_right_eq_some.mp done
      obtain ⟨shared, moved, rfl⟩ := Option.map_eq_some_iff.mp stepped
      exact ⟨valid, event, outside_seen distant moved, .outside event⟩

theorem directories_implement (lowers : Links.AsciiLower library.unicode)
    (digests : ∀ data, (library.sha256 data).length = digestSize)
    (same : ∀ data, platform.sha256Hex data = sha256Hex library data) :
    Implements (directories platform library nodes token) (service platform) (fun _ => True)
      (fun world shared => (∀ node, (world.disks node).Valid) ∧ shared = seen world)
      (Explains nodes token) where
  program _ := rfl
  starts _ _ may := may
  restarts _ may := may
  exec := by
    rintro thread before twin request reply after - ⟨valid, rfl⟩ done
    obtain ⟨shared, answered, rfl⟩ := Option.map_eq_some_iff.mp done
    exact ⟨_, exec_seen answered, valid, rfl⟩
  env := by
    rintro before twin incident after - ⟨valid, rfl⟩ done
    obtain ⟨still, event, moved, explained⟩ := occur_seen lowers digests same valid done
    exact ⟨[event], _, run_single moved, explained, still, rfl⟩

end Refinement

def equipped (clock : Nat) (disks : Uuid → Disk) : Config World Tid Job Op Res Outcome where
  shared := ⟨(deployed clock).shared, disks⟩
  threads := fun _ => .fresh

/-- What the service has seen of a run over directories. -/
structure Reflects (nodes : Uuid → StorageNode.Settings) (token : Bytes)
    (labels : List (Label Tid Job Incident Op Res Outcome))
    (config : Config World Tid Job Op Res Outcome) (shown : List (List ServiceLabel))
    (last : ServiceConfig) : Prop where
  shared : last.shared = seen config.shared
  threads : last.threads = config.threads
  /-- the same steps of the same threads -/
  visible : shown.flatten.filterMap visible = labels.filterMap visible
  events : List.Forall₂ (Shown (Explains nodes token)) labels shown

/-- Over directories whose files may be lost, cut short or overwritten, the services and the
worker do what the results about the service speak of. -/
theorem directories_refine (platform : Platform) (library : Library)
    (lowers : Links.AsciiLower library.unicode)
    (digests : ∀ data, (library.sha256 data).length = digestSize)
    (same : ∀ data, platform.sha256Hex data = sha256Hex library data)
    (nodes : Uuid → StorageNode.Settings) (token : Bytes) (clock : Nat) (disks : Uuid → Disk)
    (valid : ∀ node, (disks node).Valid) (empty : ∀ node id, (disks node).shard id = none)
    (labels : List (Label Tid Job Incident Op Res Outcome))
    (config : Config World Tid Job Op Res Outcome)
    (run : Run (Step (directories platform library nodes token)) (equipped clock disks) labels
      config) :
    ∃ shown last, Run (Step (service platform)) (deployed clock) shown.flatten last ∧
      Reflects nodes token labels config shown last := by
  have start : seen ⟨(deployed clock).shared, disks⟩ = (deployed clock).shared := by
    have nothing : contents disks = fun _ _ => none := by
      funext node id
      rw [contents, empty]
      rfl
    rw [seen, nothing]
    rfl
  have alike : Alike (fun world shared =>
      (∀ node, (world.disks node).Valid) ∧ shared = seen world) (equipped clock disks)
      (deployed clock) := ⟨⟨valid, start.symm⟩, rfl⟩
  obtain ⟨shown, last, ran, events, related⟩ :=
    pool_simulated (directories_implement lowers digests same)
      (run_mono (fun _ _ _ taken => ⟨taken, trivial⟩) run) alike
  exact ⟨shown, last, ran, related.shared.2, related.threads, shown_visible events, events⟩

def damagedUpload : List (Move World Tid Job Incident Op Res) :=
  let oracle (world : World) (request : Op) : Option (Res request) := prompt world.shared request
  [.env (.outside (.register (healthyNode 1))), .env (.outside (.register (healthyNode 2))),
    .start (.api 0) (.upload smallUpload)] ++ List.replicate 8 (.act (.api 0) oracle) ++
  [.env (.serve 0 0 [[7]]), .env (.serve 1 1 [[], [7]])] ++
  List.replicate 4 (.act (.api 0) oracle) ++
  [.finish (.api 0), .env (.damage 1 2 (some [7]))]

theorem directories_refine_damaged : ∃ labels config shown last,
    Run (Step (directories Scrub.smallPlatform StorageNode.smallLibrary defaultNode smallToken))
      (equipped 0 fun _ => StorageNode.emptyDisk) labels config ∧
    config.shared.shared.db.files.map (·.status) = [.available] ∧
    (config.shared.disks 1).shard 2 = some [7] ∧
    Run (Step (service Scrub.smallPlatform)) (deployed 0) shown.flatten last ∧
    Reflects defaultNode smallToken labels config shown last := by
  obtain ⟨labels, config, run, passed⟩ := drive_reaches
    (directories Scrub.smallPlatform StorageNode.smallLibrary defaultNode smallToken)
    (equipped 0 fun _ => StorageNode.emptyDisk) damagedUpload
    (fun _ config => decide (config.shared.shared.db.files.map (·.status) = [.available]) &&
      decide ((config.shared.disks 1).shard 2 = some [7])) (by decide +kernel)
  rw [Bool.and_eq_true, decide_eq_true_eq, decide_eq_true_eq] at passed
  obtain ⟨shown, last, ran, reflects⟩ := directories_refine Scrub.smallPlatform
    StorageNode.smallLibrary Scrub.small_ascii StorageNode.smallLibrary_digests (fun _ => rfl)
    defaultNode smallToken 0 (fun _ => StorageNode.emptyDisk)
    (fun _ => StorageNode.emptyDisk_valid) (fun _ _ => rfl) labels config run
  exact ⟨labels, config, shown, last, run, passed.1, passed.2, ran, reflects⟩

end SecureFileSystem.Directories
