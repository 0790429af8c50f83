import SecureFileSystem.Restoration
import SecureFileSystem.Scrub

/-!
An upload against the handlers of the nodes. A node refuses a body above its
`max_shard_bytes`, which no setting of the API service knows of: the block size
decides whether an admitted upload can be stored.
-/

namespace SecureFileSystem.Storable

open Base Uuid TextCodec Database Fleet Session LifeCycle Erasure Files Program Transition Execution
  SecureFileSystem.Configuration Service Records Guarantees
open Storage (Disk shardFile digestSize)
open StorageNode (Library Canonical LengthReadable Oversized Matches Authorised TokenReadable
  requireNodeToken latin1 lowerByte ascii hex sha256Hex answered handle)
open Scrub (onWire getRequest)

def defaultMaxShardBytes : Nat := 64 * 1024 * 1024

def asciiBytes (text : Text) : Bytes := text.map fun character => UInt8.ofNat character.toNat

/-- `NodeClient.put_shard`, on the wire; the body comes in these chunks. -/
def putRequest (library : Library) (token : Bytes) (chunks : List Bytes) (id : Uuid)
    (data : Bytes) : StorageNode.Request where
  method := .put
  shardId := uuidText id
  nodeToken := some token
  checksum := some (asciiBytes (sha256Hex library data))
  contentLength := some (asciiBytes (decimal data.length))
  chunks := chunks

def deleteRequest (token : Bytes) (id : Uuid) : StorageNode.Request where
  method := .delete
  shardId := uuidText id
  nodeToken := some token
  checksum := none
  contentLength := none
  chunks := []

def shardRequest (library : Library) (token : Bytes) (chunks : List Bytes) :
    NodeRequest → Option StorageNode.Request
  | .put id data =>
      if chunks.flatten = data then some (putRequest library token chunks id data) else none
  | .get id => some (getRequest token id)
  | .delete id => some (deleteRequest token id)
  | .healthz => none

section Header

theorem asciiBytes_latin1 {text : Text} (plain : ascii text = true) :
    latin1 (asciiBytes text) = text := by
  unfold latin1 asciiBytes
  rw [List.map_map]
  conv_rhs => rw [← List.map_id text]
  apply List.map_congr_left
  intro character member
  have small : character.toNat < 128 :=
    of_decide_eq_true (List.all_eq_true.mp plain character member)
  have byte : (UInt8.ofNat character.toNat).toNat = character.toNat := by
    rw [UInt8.toNat_ofNat']
    exact Nat.mod_eq_of_lt (by omega)
  rw [Function.comp_apply, byte, Char.ofNat_toNat, id]

theorem lower_hex (bytes : Bytes) :
    (asciiBytes (hex bytes)).map lowerByte = asciiBytes (hex bytes) := by
  have digits : ∀ value < 16, lowerByte (UInt8.ofNat (hexDigit value).toNat) =
      UInt8.ofNat (hexDigit value).toNat := by decide
  unfold asciiBytes
  rw [List.map_map]
  apply List.map_congr_left
  intro character member
  obtain ⟨byte, -, inside⟩ := List.mem_flatMap.mp member
  simp only [hexText, List.nil_append, List.mem_append, List.mem_singleton] at inside
  rcases inside with rfl | rfl
  · exact digits _ (Nat.mod_lt _ (by decide))
  · exact digits _ (Nat.mod_lt _ (by decide))

theorem ascii_decimal (number : Nat) : ascii (decimal number) = true := by
  apply List.all_eq_true.mpr
  intro character member
  have digit := decimal_digits number character member
  simp only [Char.isDigit, Bool.and_eq_true, decide_eq_true_eq] at digit
  have upper : character.val.toNat ≤ 57 := UInt32.le_iff_toNat_le.mp digit.2
  exact decide_eq_true (by change character.val.toNat < 128; omega)

theorem decimal_readable (number : Nat) : StorageNode.Decimal (asciiBytes (decimal number)) := by
  intro byte member
  obtain ⟨character, inside, rfl⟩ := List.mem_map.mp member
  have digit := decimal_digits number character inside
  simp only [Char.isDigit, Bool.and_eq_true, decide_eq_true_eq] at digit
  have lower : 48 ≤ character.val.toNat := UInt32.le_iff_toNat_le.mp digit.1
  have upper : character.val.toNat ≤ 57 := UInt32.le_iff_toNat_le.mp digit.2
  have value : (UInt8.ofNat character.toNat).toNat = character.val.toNat := by
    rw [UInt8.toNat_ofNat']
    exact Nat.mod_eq_of_lt (by change character.val.toNat < _; omega)
  constructor
  · exact UInt8.le_iff_toNat_le.mpr (by rw [value]; exact lower)
  · exact UInt8.le_iff_toNat_le.mpr (by rw [value]; exact upper)

end Header

/-- What a node makes of a request for a shard that it does not have: the status
of its answer, and what it has afterwards. -/
def outcome (library : Library) (cap : Nat) : NodeRequest → Nat × Option Bytes
  | .put _ data =>
      if cap < data.length then (413, none) else (201, some (shardFile library.sha256 data))
  | _ => (404, none)

def Sendable : NodeRequest → Prop
  | .put _ data => data ≠ [] ∧ data.length < 10 ^ StorageNode.maxStrDigits
  | _ => True

section Handler
variable {library : Library} {settings : StorageNode.Settings} {token : Bytes} {caller : Nat}
  {disk : Disk} {chunks : List Bytes}

theorem accepted_authorised (accepted : requireNodeToken settings (some token) = .ok ())
    {received : StorageNode.Request} (same : received.nodeToken = some token) :
    Authorised settings received ∧ TokenReadable settings received := by
  rw [← same] at accepted
  by_cases readable : TokenReadable settings received
  · obtain ⟨-, refuses⟩ := StorageNode.requireNodeToken_readable settings received readable
    by_cases authorised : Authorised settings received
    · exact ⟨authorised, readable⟩
    · rw [refuses authorised] at accepted
      cases accepted
  · rw [StorageNode.requireNodeToken_unreadable settings received readable] at accepted
    cases accepted

theorem text_canonical (lowers : Links.AsciiLower library.unicode) (id other : Uuid) :
    Canonical library (uuidText id) other ↔ other = id := by
  unfold Canonical
  rw [UuidText.uuidOf_uuidText, Links.lower_uuidText lowers]
  constructor
  · rintro ⟨same, -⟩
    exact (Option.some.inj same).symm
  · rintro rfl
    exact ⟨rfl, rfl⟩

theorem put_checks {id : Uuid} {data : Bytes} (whole : chunks.flatten = data)
    (short : data.length < 10 ^ StorageNode.maxStrDigits) :
    LengthReadable (putRequest library token chunks id data) ∧
      (Oversized settings (putRequest library token chunks id data) ↔
        settings.maxShardBytes < data.length) ∧
      Matches library (putRequest library token chunks id data)
        (asciiBytes (sha256Hex library data)) := by
  have body : StorageNode.body (putRequest library token chunks id data) = data := whole
  have digits : latin1 (asciiBytes (decimal data.length)) = decimal data.length :=
    asciiBytes_latin1 (ascii_decimal _)
  refine ⟨?readable, ?oversized, ?digest⟩
  case readable =>
    rintro declared ⟨rfl⟩ -
    refine ⟨decimal_readable _, ?_⟩
    rw [asciiBytes, List.length_map]
    exact (decimal_length _ _ (by decide)).mpr short
  case oversized =>
    unfold Oversized
    rw [body]
    constructor
    · rintro (long | ⟨declared, ⟨rfl⟩, -, -, long⟩)
      · exact long
      · rwa [digits, decimalValue_decimal] at long
    · exact Or.inl
  case digest =>
    unfold Matches
    rw [body, sha256Hex, lower_hex, asciiBytes_latin1 (StorageNode.ascii_hex _)]

/-- Every check of the handlers, for a request about a shard that the node does not have. -/
theorem handle_vacant (lowers : Links.AsciiLower library.unicode)
    (digests : ∀ data, (library.sha256 data).length = digestSize)
    (accepted : requireNodeToken settings (some token) = .ok ()) (valid : disk.Valid)
    {request : NodeRequest} {received : StorageNode.Request} {id : Uuid}
    (names : request.shard = some id) (sendable : Sendable request)
    (sent : shardRequest library token chunks request = some received)
    (free : disk.shard id = none) :
    (onWire (answered (handle library settings caller received disk).1)).status =
        (outcome library settings.maxShardBytes request).1 ∧
      (handle library settings caller received disk).2.shard id =
        (outcome library settings.maxShardBytes request).2 := by
  -- A refused request leaves the directory as it is.
  have refused : ∀ {result : Except StorageNode.Raised StorageNode.Response × Disk} {status : Nat},
      StorageNode.Refused result disk status →
        (onWire (answered result.1)).status = status ∧ result.2.shard id = none := by
    rintro result status ⟨⟨response, given, rfl⟩, kept⟩
    rw [given, kept]
    exact ⟨rfl, free⟩
  have authorised : ∀ received : StorageNode.Request, received.nodeToken = some token →
      Authorised settings received ∧ TokenReadable settings received :=
    fun received same => accepted_authorised accepted same
  have canonical := (text_canonical lowers id id).mpr rfl
  cases request with
  | healthz => cases names
  | put named data =>
      cases names
      obtain ⟨nonempty, short⟩ := sendable
      obtain ⟨whole, same⟩ := Option.ite_none_right_eq_some.mp sent
      cases same
      obtain ⟨readable, oversized, digest⟩ :=
        @put_checks library settings token chunks id data whole short
      obtain ⟨authorised, header⟩ := authorised (putRequest library token chunks id data) rfl
      have documented := StorageNode.answerable_documented library settings caller
        (putRequest library token chunks id data) disk digests valid
        ⟨header, fun _ _ _ _ _ => readable, by
          rintro _ _ _ _ checksum ⟨rfl⟩ - -
          rw [sha256Hex, asciiBytes_latin1 (StorageNode.ascii_hex _)]
          exact StorageNode.ascii_hex _⟩
      have put := documented.put id authorised canonical rfl
      have body : StorageNode.body (putRequest library token chunks id data) = data := whole
      rw [outcome]
      by_cases large : settings.maxShardBytes < data.length
      · rw [if_pos large]
        exact refused (put.oversized _ rfl (oversized.mpr large))
      · rw [if_neg large]
        obtain ⟨given, stored⟩ := put.stored _ rfl (mt oversized.mp large)
          (by rw [body]; exact nonempty) digest free
        rw [given, stored, Function.update_self, body]
        exact ⟨rfl, rfl⟩
  | get named =>
      cases names
      cases sent
      obtain ⟨authorised, header⟩ := authorised (getRequest token id) rfl
      have documented := StorageNode.answerable_documented library settings caller
        (getRequest token id) disk digests valid ⟨header, by rintro _ _ _ ⟨⟩, by rintro _ _ _ ⟨⟩⟩
      exact refused ((documented.get id authorised canonical rfl).missing free)
  | delete named =>
      cases names
      cases sent
      obtain ⟨authorised, header⟩ := authorised (deleteRequest token id) rfl
      have documented := StorageNode.answerable_documented library settings caller
        (deleteRequest token id) disk digests valid ⟨header, by rintro _ _ _ ⟨⟩, by rintro _ _ _ ⟨⟩⟩
      exact refused ((documented.delete id authorised canonical rfl).missing free)

end Handler

structure World where
  shared : Shared
  disks : Uuid → Disk

def World.served (library : Library) (nodes : Uuid → StorageNode.Settings) (world : World)
    (index caller : Nat) (flight : Flight Tid) (received : StorageNode.Request) : World :=
  let result := handle library (nodes flight.node) caller received (world.disks flight.node)
  ⟨world.shared.settle index flight (.answered (onWire (answered result.1))),
    Function.update world.disks flight.node result.2⟩

inductive NodeStep (library : Library) (nodes : Uuid → StorageNode.Settings) (token : Bytes) :
    World → World → Prop
  | shard {world : World} {index : Nat} {flight : Flight Tid} (caller : Nat)
      {chunks : List Bytes} {received : StorageNode.Request}
      (pending : world.shared.pending index = some flight)
      (sent : shardRequest library token chunks flight.request = some received) :
      NodeStep library nodes token world (world.served library nodes index caller flight received)
  | healthz {world : World} {index : Nat} {flight : Flight Tid}
      (pending : world.shared.pending index = some flight) (probe : flight.request = .healthz) :
      NodeStep library nodes token world
        { world with shared := world.shared.settle index flight (.answered (answer 200)) }

def patient : (request : Op) → Res request → Bool
  | .await _, replies => replies.all Option.isSome
  | _, _ => true

def ask (thread : Tid) (world : World) (request : Op) (answer : Res request) : Option World :=
  if patient request answer then
    (exec thread world.shared request answer).map fun shared => { world with shared := shared }
  else none

structure Vacant (known : Uuid → Prop) (requests : List (Uuid × NodeRequest)) : Prop where
  distinct : (requests.map (·.2.shard)).Nodup
  named : ∀ one ∈ requests, ∃ id, one.2.shard = some id ∧ ¬ known id
  sendable : ∀ one ∈ requests, Sendable one.2

/-- The requests are on their way from a handle on, and each comes to a node
that has no such shard. -/
structure Flying (library : Library) (nodes : Uuid → StorageNode.Settings) (known : Uuid → Prop)
    (base : Nat) (requests : List (Uuid × NodeRequest)) (world : World) : Prop where
  valid : ∀ node, (world.disks node).Valid
  count : world.shared.flights.length = base + requests.length
  old : ∀ index flight id, index < base → world.shared.pending index = some flight →
    flight.request.shard = some id → known id
  clean : ∀ node id, ¬ known id → (∀ one ∈ requests, one.1 = node → one.2.shard ≠ some id) →
    (world.disks node).shard id = none
  ours : ∀ position node request id, requests[position]? = some (node, request) →
    request.shard = some id →
    (∃ flight, world.shared.pending (base + position) = some flight ∧ flight.node = node ∧
      flight.request = request ∧ (world.disks node).shard id = none) ∨
    (∃ flight response, world.shared.flights[base + position]? = some flight ∧
      flight.node = node ∧ flight.request = request ∧ flight.state = .answered response ∧
      response.status = (outcome library (nodes node).maxShardBytes request).1 ∧
      (world.disks node).shard id = (outcome library (nodes node).maxShardBytes request).2)

section Steps
variable {library : Library} {nodes : Uuid → StorageNode.Settings} {token : Bytes}
  {known : Uuid → Prop} {base : Nat} {requests : List (Uuid × NodeRequest)} {before after : World}

theorem sent_shard {chunks : List Bytes} {request : NodeRequest} {received : StorageNode.Request}
    (sent : shardRequest library token chunks request = some received) :
    ∃ id, request.shard = some id ∧ received.shardId = uuidText id := by
  cases request with
  | put id data =>
      obtain ⟨-, same⟩ := Option.ite_none_right_eq_some.mp sent
      cases same
      exact ⟨id, rfl, rfl⟩
  | get id =>
      cases sent
      exact ⟨id, rfl, rfl⟩
  | delete id =>
      cases sent
      exact ⟨id, rfl, rfl⟩
  | healthz => cases sent

theorem served_here (index caller : Nat) (flight : Flight Tid) (received : StorageNode.Request) :
    (before.served library nodes index caller flight received).disks flight.node =
      (handle library (nodes flight.node) caller received (before.disks flight.node)).2 :=
  Function.update_self _ _ _

theorem served_elsewhere (index caller : Nat) {flight : Flight Tid}
    (received : StorageNode.Request) {node : Uuid} (apart : node ≠ flight.node) :
    (before.served library nodes index caller flight received).disks node = before.disks node :=
  Function.update_of_ne apart _ _

theorem served_valid {index caller : Nat} {flight : Flight Tid} {received : StorageNode.Request}
    (valid : ∀ node, (before.disks node).Valid) (node : Uuid) :
    ((before.served library nodes index caller flight received).disks node).Valid := by
  by_cases here : node = flight.node
  · subst node
    rw [served_here]
    exact (StorageNode.handle_frame library _ caller received _ (valid flight.node)).1
  · rw [served_elsewhere _ _ _ here]
    exact valid node

theorem served_apart (lowers : Links.AsciiLower library.unicode) {index caller : Nat}
    {flight : Flight Tid} {received : StorageNode.Request} {node id named : Uuid}
    (valid : ∀ node, (before.disks node).Valid) (path : received.shardId = uuidText named)
    (apart : node = flight.node → id ≠ named) :
    ((before.served library nodes index caller flight received).disks node).shard id =
      (before.disks node).shard id := by
  by_cases here : node = flight.node
  · subst node
    rw [served_here]
    apply (StorageNode.handle_frame library _ caller received _ (valid flight.node)).2
    rw [path, text_canonical lowers]
    exact apart rfl
  · rw [served_elsewhere _ _ _ here]

theorem settle_pending {shared : Shared} {index other : Nat} {flight : Flight Tid}
    {response : HttpResponse} (apart : other ≠ index) :
    (shared.settle index flight (.answered response)).pending other = shared.pending other := by
  unfold Shared.pending Shared.settle
  rw [List.getElem?_set_ne (Ne.symm apart)]

theorem settle_answered {shared : Shared} {index : Nat} {flight : Flight Tid}
    {response : HttpResponse} (inside : index < shared.flights.length) :
    (shared.settle index flight (.answered response)).flights[index]? =
      some { flight with state := .answered response } :=
  List.getElem?_set_self inside

theorem settle_done {shared : Shared} {index : Nat} {flight : Flight Tid}
    {response : HttpResponse} :
    (shared.settle index flight (.answered response)).pending index = none := by
  unfold Shared.pending Shared.settle
  by_cases inside : index < shared.flights.length
  · rw [List.getElem?_set_self inside]
    exact if_neg (by simp)
  · rw [List.getElem?_eq_none]
    rw [List.length_set]
    exact Nat.not_lt.mp inside

theorem settle_other {shared : Shared} {index other : Nat} {flight : Flight Tid}
    {response : HttpResponse} (apart : other ≠ index) :
    (shared.settle index flight (.answered response)).flights[other]? = shared.flights[other]? :=
  List.getElem?_set_ne (Ne.symm apart)

theorem step_kept (step : NodeStep library nodes token before after) :
    after.shared.db = before.shared.db ∧ after.shared.issued = before.shared.issued := by
  cases step with
  | shard _ _ _ => exact ⟨rfl, rfl⟩
  | healthz _ _ => exact ⟨rfl, rfl⟩

section Answered
variable {index : Nat} {flight : Flight Tid} {response : HttpResponse}

theorem flying_pending (flying : Flying library nodes known base requests before)
    (pending : before.shared.pending index = some flight) {position : Nat} {node : Uuid}
    {request : NodeRequest} {id : Uuid} (asked : requests[position]? = some (node, request))
    (named : request.shard = some id) (here : base + position = index) :
    flight.node = node ∧ flight.request = request ∧ (before.disks node).shard id = none := by
  obtain ⟨found, waiting⟩ := Wire.pending_found pending
  subst here
  rcases flying.ours position node request id asked named with
    ⟨other, there, sent, carried, free⟩ | ⟨other, response, there, -, -, state, -⟩
  · obtain rfl := Option.some.inj (there.symm.trans pending)
    exact ⟨sent, carried, free⟩
  · obtain rfl := Option.some.inj (there.symm.trans found)
    rw [waiting] at state
    cases state

theorem settle_count (flying : Flying library nodes known base requests before) :
    (before.shared.settle index flight (.answered response)).flights.length =
      base + requests.length := by
  change (before.shared.flights.set _ _).length = _
  rw [List.length_set]
  exact flying.count

theorem settle_old (flying : Flying library nodes known base requests before) (other : Nat)
    (asked : Flight Tid) (id : Uuid) (early : other < base)
    (waits : (before.shared.settle index flight (.answered response)).pending other = some asked)
    (named : asked.request.shard = some id) : known id := by
  by_cases same : other = index
  · rw [same, settle_done] at waits
    cases waits
  · rw [settle_pending same] at waits
    exact flying.old other asked id early waits named

theorem probed_flying (flying : Flying library nodes known base requests before)
    (pending : before.shared.pending index = some flight) (probe : flight.request = .healthz) :
    Flying library nodes known base requests
      { before with shared := before.shared.settle index flight (.answered response) } := by
  constructor
  case valid => exact flying.valid
  case count => exact settle_count flying
  case old => exact settle_old flying
  case clean => exact flying.clean
  case ours =>
    intro position node request id asked named
    have other : base + position ≠ index := by
      intro here
      obtain ⟨-, carried, -⟩ := flying_pending flying pending asked named here
      rw [← carried, probe] at named
      cases named
    dsimp only
    rw [settle_pending other, settle_other other]
    exact flying.ours position node request id asked named

/-- A request for a shard is an older one, or one of these for a shard its node does not have. -/
theorem flying_place (vacant : Vacant known requests)
    (flying : Flying library nodes known base requests before)
    (pending : before.shared.pending index = some flight) {named : Uuid}
    (names : flight.request.shard = some named) :
    (index < base ∧ known named) ∨ ∃ position, index = base + position ∧
      requests[position]? = some (flight.node, flight.request) ∧
      (before.disks flight.node).shard named = none := by
  by_cases early : index < base
  · exact Or.inl ⟨early, flying.old index flight named early pending names⟩
  right
  have inside := (List.getElem?_eq_some_iff.mp (Wire.pending_found pending).1).1
  have room : index - base < requests.length := by
    have total := flying.count
    omega
  obtain ⟨⟨node, request⟩, asked⟩ : ∃ one, requests[index - base]? = some one :=
    ⟨_, List.getElem?_eq_getElem room⟩
  obtain ⟨id, shard, -⟩ := vacant.named _ (List.mem_of_getElem? asked)
  have here : base + (index - base) = index := by omega
  obtain ⟨rfl, rfl, free⟩ := flying_pending flying pending asked shard here
  cases Option.some.inj (shard.symm.trans names)
  exact ⟨index - base, here.symm, asked, free⟩

theorem vacant_apart (vacant : Vacant known requests) {position other : Nat} {node there : Uuid}
    {request carried : NodeRequest} {id : Uuid}
    (asked : requests[position]? = some (node, request)) (named : request.shard = some id)
    (mine : requests[other]? = some (there, carried)) (names : carried.shard = some id) :
    position = other := by
  have left : (requests.map (·.2.shard))[position]? = some (some id) := by
    rw [List.getElem?_map, asked, Option.map_some, named]
  have right : (requests.map (·.2.shard))[other]? = some (some id) := by
    rw [List.getElem?_map, mine, Option.map_some, names]
  exact (List.getElem?_inj (List.getElem?_eq_some_iff.mp left).1 vacant.distinct).mp
    (left.trans right.symm)

end Answered

theorem served_ours (lowers : Links.AsciiLower library.unicode)
    (digests : ∀ data, (library.sha256 data).length = digestSize)
    (accepted : ∀ node, requireNodeToken (nodes node) (some token) = .ok ())
    (vacant : Vacant known requests) (flying : Flying library nodes known base requests before)
    {index caller : Nat} {flight : Flight Tid} {chunks : List Bytes}
    {received : StorageNode.Request} {position : Nat} {named : Uuid}
    (sent : shardRequest library token chunks flight.request = some received)
    (names : flight.request.shard = some named)
    (inside : index < before.shared.flights.length) (here : base + position = index)
    (asked : requests[position]? = some (flight.node, flight.request))
    (empty : (before.disks flight.node).shard named = none) :
    ∃ done response, (before.served library nodes index caller flight received).shared.flights[
        base + position]? = some done ∧ done.node = flight.node ∧ done.request = flight.request ∧
      done.state = .answered response ∧
      response.status = (outcome library (nodes flight.node).maxShardBytes flight.request).1 ∧
      ((before.served library nodes index caller flight received).disks flight.node).shard named =
        (outcome library (nodes flight.node).maxShardBytes flight.request).2 := by
  have sendable := vacant.sendable _ (List.mem_of_getElem? asked)
  obtain ⟨status, entry⟩ := @handle_vacant library (nodes flight.node) token caller
    (before.disks flight.node) chunks lowers digests (accepted flight.node)
    (flying.valid flight.node) flight.request received named names sendable sent empty
  rw [here]
  refine ⟨_, _, settle_answered inside, rfl, rfl, rfl, status, ?_⟩
  rw [served_here]
  exact entry

theorem served_flying (lowers : Links.AsciiLower library.unicode)
    (digests : ∀ data, (library.sha256 data).length = digestSize)
    (accepted : ∀ node, requireNodeToken (nodes node) (some token) = .ok ())
    (vacant : Vacant known requests) (flying : Flying library nodes known base requests before)
    {index caller : Nat} {flight : Flight Tid} {chunks : List Bytes}
    {received : StorageNode.Request} (pending : before.shared.pending index = some flight)
    (sent : shardRequest library token chunks flight.request = some received) :
    Flying library nodes known base requests
      (before.served library nodes index caller flight received) := by
  have inside := (List.getElem?_eq_some_iff.mp (Wire.pending_found pending).1).1
  obtain ⟨named, names, path⟩ := sent_shard sent
  have place := flying_place vacant flying pending names
  constructor
  case valid => exact served_valid flying.valid
  case count => exact settle_count flying
  case old => exact settle_old flying
  case clean =>
    intro node id unknown free
    rw [served_apart lowers flying.valid path]
    · exact flying.clean node id unknown free
    · rintro rfl rfl
      rcases place with ⟨-, listed⟩ | ⟨position, -, asked, -⟩
      · exact unknown listed
      · exact free _ (List.mem_of_getElem? asked) rfl names
  case ours =>
    intro position node request id asked shard
    by_cases same : base + position = index
    · obtain ⟨rfl, rfl, empty⟩ := flying_pending flying pending asked shard same
      cases Option.some.inj (shard.symm.trans names)
      exact Or.inr (served_ours lowers digests accepted vacant flying sent names inside same
        asked empty)
    · have apart : node = flight.node → id ≠ named := by
        rintro rfl rfl
        obtain ⟨own, this, unknown⟩ := vacant.named _ (List.mem_of_getElem? asked)
        cases Option.some.inj (this.symm.trans shard)
        rcases place with ⟨-, listed⟩ | ⟨other, here, mine, -⟩
        · exact unknown listed
        · exact same (here ▸ congrArg (base + ·) (vacant_apart vacant asked shard mine names))
      rw [served_apart lowers flying.valid path apart]
      have still := flying.ours position node request id asked shard
      rw [← settle_pending same] at still
      rw [← settle_other same] at still
      exact still

theorem step_flying (lowers : Links.AsciiLower library.unicode)
    (digests : ∀ data, (library.sha256 data).length = digestSize)
    (accepted : ∀ node, requireNodeToken (nodes node) (some token) = .ok ())
    (vacant : Vacant known requests) (step : NodeStep library nodes token before after)
    (flying : Flying library nodes known base requests before) :
    Flying library nodes known base requests after := by
  cases step with
  | healthz pending probe => exact probed_flying flying pending probe
  | shard caller pending sent =>
      exact served_flying lowers digests accepted vacant flying pending sent

theorem found_pending {shared : Shared} {index : Nat} {flight : Flight Tid}
    (found : shared.flights[index]? = some flight) (waiting : flight.state = .pending) :
    shared.pending index = some flight := by
  unfold Shared.pending
  rw [found]
  exact if_pos waiting

theorem exec_flying {thread : Tid} {request : Op} {answer : Res request} {shared : Shared}
    (silent : Wire.sends request = [])
    (done : exec thread before.shared request answer = some shared)
    (flying : Flying library nodes known base requests before) :
    Flying library nodes known base requests { before with shared := shared } := by
  have count : shared.flights.length = before.shared.flights.length := by
    have grown := congrArg List.length (Wire.exec_wire done)
    rw [silent] at grown
    simpa [Wire.wire] using grown
  have old : ∀ index flight, shared.pending index = some flight →
      ∃ earlier, before.shared.pending index = some earlier ∧ earlier.request = flight.request := by
    intro index flight pending
    obtain ⟨found, waiting⟩ := Wire.pending_found pending
    rcases Wire.exec_flight done found with ⟨earlier, there, told⟩ | ⟨late, -⟩
    · have same : flight.request = earlier.request := congrArg (·.2.2) told.sent
      exact ⟨earlier, found_pending there (told.state.symm.trans waiting), same.symm⟩
    · exact absurd (List.getElem?_eq_some_iff.mp found).1 (by omega)
  constructor
  case valid => exact flying.valid
  case count => exact count.trans flying.count
  case old =>
    intro index flight id early pending named
    obtain ⟨earlier, there, same⟩ := old index flight pending
    exact flying.old index earlier id early there (same ▸ named)
  case clean => exact flying.clean
  case ours =>
    intro position node asked id listed named
    rcases flying.ours position node asked id listed named with
      ⟨flight, pending, here, carried, free⟩ |
        ⟨flight, response, found, here, carried, state, status, entry⟩
    · obtain ⟨found, waiting⟩ := Wire.pending_found pending
      obtain ⟨later, there, told⟩ := Wire.exec_kept done found
      exact Or.inl ⟨later, found_pending there (told.state.trans waiting),
        (congrArg (·.2.1) told.sent).trans here, (congrArg (·.2.2) told.sent).trans carried, free⟩
    · obtain ⟨later, there, told⟩ := Wire.exec_kept done found
      exact Or.inr ⟨later, response, there, (congrArg (·.2.1) told.sent).trans here,
        (congrArg (·.2.2) told.sent).trans carried, told.state.trans state, status, entry⟩

def wholeBody : NodeRequest → List Bytes
  | .put _ data => [data]
  | _ => []

structure Landed (library : Library) (nodes : Uuid → StorageNode.Settings) (known : Uuid → Prop)
    (base : Nat) (requests : List (Uuid × NodeRequest)) (world : World) : Prop where
  flying : Flying library nodes known base requests world
  none_left : ∀ position < requests.length, world.shared.pending (base + position) = none

theorem step_answered (step : NodeStep library nodes token before after) {index : Nat}
    (answered : before.shared.pending index = none) : after.shared.pending index = none := by
  have settled : ∀ (other : Nat) (flight : Flight Tid) (response : HttpResponse),
      (before.shared.settle other flight (.answered response)).pending index = none := by
    intro other flight response
    by_cases same : index = other
    · rw [same]
      exact settle_done
    · rw [settle_pending same]
      exact answered
  cases step with
  | shard _ _ _ => exact settled _ _ _
  | healthz _ _ => exact settled _ _ _

theorem landed_entry (landed : Landed library nodes known base requests before) {position : Nat}
    {node id : Uuid} {request : NodeRequest} (listed : requests[position]? = some (node, request))
    (named : request.shard = some id) :
    (∃ flight response, before.shared.flights[base + position]? = some flight ∧
      flight.node = node ∧ flight.request = request ∧ flight.state = .answered response ∧
      response.status = (outcome library (nodes node).maxShardBytes request).1) ∧
    (before.disks node).shard id = (outcome library (nodes node).maxShardBytes request).2 := by
  have inside := (List.getElem?_eq_some_iff.mp listed).1
  rcases landed.flying.ours position node request id listed named with
    ⟨flight, pending, -⟩ | ⟨flight, response, found, here, carried, state, status, entry⟩
  · cases (landed.none_left position inside).symm.trans pending
  · exact ⟨⟨flight, response, found, here, carried, state, status⟩, entry⟩

/-- The requests can be answered, one after the other. -/
theorem flying_lands (lowers : Links.AsciiLower library.unicode)
    (digests : ∀ data, (library.sha256 data).length = digestSize)
    (accepted : ∀ node, requireNodeToken (nodes node) (some token) = .ok ())
    (vacant : Vacant known requests) (flying : Flying library nodes known base requests before) :
    ∃ later, Relation.ReflTransGen (NodeStep library nodes token) before later ∧
      Landed library nodes known base requests later := by
  -- Let the nodes take the requests one after the other.
  have several : ∀ count ≤ requests.length, ∃ later,
      Relation.ReflTransGen (NodeStep library nodes token) before later ∧
        Flying library nodes known base requests later ∧
        ∀ position < count, later.shared.pending (base + position) = none := by
    intro count
    induction count with
    | zero => exact fun _ => ⟨before, .refl, flying, by simp⟩
    | succ count ih =>
        intro within
        obtain ⟨later, moves, still, settled⟩ := ih (Nat.le_of_succ_le within)
        cases next : later.shared.pending (base + count) with
        | none =>
            refine ⟨later, moves, still, fun position below => ?_⟩
            rcases Nat.lt_succ_iff_lt_or_eq.mp below with earlier | rfl
            · exact settled position earlier
            · exact next
        | some flight =>
            obtain ⟨⟨node, request⟩, listed⟩ : ∃ one, requests[count]? = some one :=
              ⟨_, List.getElem?_eq_getElem within⟩
            obtain ⟨id, named, -⟩ := vacant.named _ (List.mem_of_getElem? listed)
            obtain ⟨received, sent⟩ : ∃ received,
                shardRequest library token (wholeBody flight.request) flight.request =
                  some received := by
              rcases still.ours count node request id listed named with
                ⟨other, there, -, carried, -⟩ | ⟨other, response, found, -, -, state, -⟩
              · obtain rfl := Option.some.inj (there.symm.trans next)
                rw [carried]
                cases request with
                | put _ data => exact ⟨_, if_pos List.flatten_singleton⟩
                | get _ => exact ⟨_, rfl⟩
                | delete _ => exact ⟨_, rfl⟩
                | healthz => cases named
              · obtain ⟨there, waiting⟩ := Wire.pending_found next
                obtain rfl := Option.some.inj (there.symm.trans found)
                rw [waiting] at state
                cases state
            have step : NodeStep library nodes token later _ := .shard 0 next sent
            refine ⟨_, moves.tail step, step_flying lowers digests accepted vacant step still, ?_⟩
            intro position below
            rcases Nat.lt_succ_iff_lt_or_eq.mp below with earlier | rfl
            · exact step_answered step (settled position earlier)
            · exact settle_done
  obtain ⟨later, moves, still, settled⟩ := several requests.length (Nat.le_refl _)
  exact ⟨later, moves, still, settled⟩

variable {thread : Tid} {Out : Type} {post : Out → World → Prop}

def Replied (library : Library) (nodes : Uuid → StorageNode.Settings)
    (requests : List (Uuid × NodeRequest)) (replies : List Reply) : Prop :=
  List.Forall₂ (fun one (reply : Reply) => ∃ response, reply = some response ∧
    response.status = (outcome library (nodes one.1).maxShardBytes one.2).1) requests replies

theorem ask_plain {request : Op} {answer : Res request} {shared : Shared}
    (easy : patient request answer = true)
    (done : exec thread before.shared request answer = some shared) :
    ask thread before request answer = some { before with shared := shared } := by
  rw [ask, if_pos easy, done]
  rfl

theorem ask_done {request : Op} {answer : Res request}
    (done : ask thread before request answer = some after) :
    patient request answer = true ∧ ∃ shared,
      exec thread before.shared request answer = some shared ∧
        after = { before with shared := shared } := by
  obtain ⟨easy, asked⟩ := Option.ite_none_right_eq_some.mp done
  obtain ⟨shared, served, same⟩ := Option.map_eq_some_iff.mp asked
  exact ⟨easy, shared, served, same.symm⟩

theorem send_flying (thread : Tid) (vacant : Vacant known requests)
    (still : Flying library nodes known base [] before) :
    Flying library nodes known base requests { before with shared := { before.shared with
      flights := before.shared.flights ++ launch thread requests } } := by
  have total : before.shared.flights.length = base := by simpa using still.count
  constructor
  case valid => exact still.valid
  case count => simp [launch, total]
  case old =>
    intro index flight id early pending named
    obtain ⟨found, waiting⟩ := Wire.pending_found pending
    rw [List.getElem?_append_left (by omega)] at found
    exact still.old index flight id early (found_pending found waiting) named
  case clean => exact fun node id unknown _ => still.clean node id unknown (by simp)
  case ours =>
    intro position node request id listed named
    obtain ⟨own, shard, unknown⟩ := vacant.named _ (List.mem_of_getElem? listed)
    cases Option.some.inj (named.symm.trans shard)
    refine Or.inl ⟨⟨thread, node, request, .pending, none⟩, found_pending ?_ rfl, rfl, rfl,
      still.clean node id unknown (by simp)⟩
    rw [List.getElem?_append_right (by omega), total, Nat.add_sub_cancel_left, launch,
      List.getElem?_map, listed]
    rfl

theorem told_landed (vacant : Vacant known requests)
    (flying : Flying library nodes known base requests before) {replies : List Reply}
    (all : replies.all Option.isSome = true) {flights : List (Flight Tid)}
    (told : awaitReplies before.shared.flights (List.range' base requests.length) replies =
      some flights) :
    Landed library nodes known base requests before ∧ Replied library nodes requests replies := by
  obtain ⟨count, heard⟩ := Wire.awaitReplies_heard told
  rw [List.length_range'] at count
  have answers : ∀ position (below : position < requests.length), ∃ flight response,
      replies[position]? = some (some response) ∧
        before.shared.flights[base + position]? = some flight ∧
          flight.state = .answered response := by
    intro position below
    obtain ⟨reply, at_reply⟩ : ∃ reply, replies[position]? = some reply :=
      ⟨_, List.getElem?_eq_getElem (by omega)⟩
    obtain ⟨response, rfl⟩ := Option.isSome_iff_exists.mp
      (List.all_eq_true.mp all reply (List.mem_of_getElem? at_reply))
    have handle : (List.range' base requests.length)[position]? = some (base + position) := by
      simp [below]
    obtain ⟨flight, found, state⟩ := heard position _ response handle at_reply
    exact ⟨flight, response, at_reply, found, state⟩
  have settled : ∀ position < requests.length, before.shared.pending (base + position) = none := by
    intro position below
    obtain ⟨flight, response, -, found, state⟩ := answers position below
    cases pending : before.shared.pending (base + position) with
    | none => rfl
    | some other =>
        obtain ⟨there, idle⟩ := Wire.pending_found pending
        obtain rfl := Option.some.inj (there.symm.trans found)
        rw [idle] at state
        cases state
  have landed : Landed library nodes known base requests before := ⟨flying, settled⟩
  refine ⟨landed, List.forall₂_iff_get.mpr ⟨count.symm, fun position below beside => ?_⟩⟩
  obtain ⟨flight, response, at_reply, found, state⟩ := answers position below
  have listed : requests[position]? = some (requests.get ⟨position, below⟩) :=
    List.getElem?_eq_getElem below
  obtain ⟨id, named, -⟩ := vacant.named _ (List.mem_of_getElem? listed)
  obtain ⟨⟨other, answer, there, -, -, same, status⟩, -⟩ := landed_entry landed listed named
  obtain rfl := Option.some.inj (there.symm.trans found)
  cases same.symm.trans state
  exact ⟨response, Option.some.inj ((List.getElem?_eq_getElem beside).symm.trans at_reply), status⟩

theorem await_landed (landed : Landed library nodes known base requests before) {handles : List Nat}
    {replies : List Reply} {shared : Shared}
    (done : exec thread before.shared (.await handles) replies = some shared) :
    Landed library nodes known base requests { before with shared := shared } := by
  refine ⟨exec_flying rfl done landed.flying, fun position below => ?_⟩
  obtain ⟨flights, told, rfl⟩ := Option.map_eq_some_iff.mp done
  cases pending : Shared.pending { before.shared with flights := flights } (base + position) with
  | none => rfl
  | some flight =>
      obtain ⟨found, idle⟩ := Wire.pending_found pending
      obtain ⟨old, there, same⟩ := Wire.awaitReplies_flight told found
      have earlier := found_pending there (same.state.symm.trans idle)
      cases (landed.none_left position below).symm.trans earlier

/-- Requests for shards that no node has: sent, answered by the handlers, and told. -/
theorem gather_returns (lowers : Links.AsciiLower library.unicode)
    (digests : ∀ data, (library.sha256 data).length = digestSize)
    (accepted : ∀ node, requireNodeToken (nodes node) (some token) = .ok ())
    (vacant : Vacant known requests) (quiet : Flying library nodes known base [] before)
    {next : List Reply → Async Out}
    (rest : ∀ replies later, later.shared.db = before.shared.db →
      Replied library nodes requests replies → Landed library nodes known base requests later →
        Returns (ask thread) (NodeStep library nodes token) post (next replies) later) :
    Returns (ask thread) (NodeStep library nodes token) post ((gather requests).bind next)
      before := by
  -- Before it is sent nothing is in the air.
  have calm : ∀ first last : World, NodeStep library nodes token first last →
      (Flying library nodes known base [] first ∧ first.shared.db = before.shared.db) →
        Flying library nodes known base [] last ∧ last.shared.db = before.shared.db := by
    rintro first last step ⟨still, same⟩
    have none : Vacant known [] := ⟨List.nodup_nil, by simp, by simp⟩
    exact ⟨step_flying lowers digests accepted none step still, (step_kept step).1.trans same⟩
  apply returns_op calm ⟨quiet, rfl⟩
  · intro here _
    exact ⟨here, _, _, .refl, ask_plain rfl (if_pos rfl)⟩
  rintro here handles launched ⟨still, same⟩ done
  obtain ⟨-, shared, sent, rfl⟩ := ask_done done
  obtain ⟨rfl, taken⟩ := Option.ite_none_right_eq_some.mp sent
  cases taken
  have total : here.shared.flights.length = base := by simpa using still.count
  have flying := send_flying thread vacant still
  have stable : ∀ first last : World, NodeStep library nodes token first last →
      (Flying library nodes known base requests first ∧ first.shared.db = before.shared.db) →
        Flying library nodes known base requests last ∧ last.shared.db = before.shared.db :=
    fun first last step held =>
      ⟨step_flying lowers digests accepted vacant step held.1, (step_kept step).1.trans held.2⟩
  apply returns_op stable ⟨flying, same⟩
  -- Some further steps of the nodes answer them all, in whatever state they are.
  · rintro waiting ⟨held, -⟩
    obtain ⟨later, moves, landed⟩ := flying_lands lowers digests accepted vacant held
    obtain ⟨replies, flights, told, real⟩ := @Reliable.awaitReplies_answered later.shared.flights
      (List.range' here.shared.flights.length requests.length) <| by
        intro handle member
        obtain ⟨position, below, rfl⟩ := List.mem_range'.mp member
        obtain ⟨⟨node, request⟩, listed⟩ : ∃ one, requests[position]? = some one :=
          ⟨_, List.getElem?_eq_getElem below⟩
        obtain ⟨id, named, -⟩ := vacant.named _ (List.mem_of_getElem? listed)
        obtain ⟨⟨flight, response, found, -, -, state, -⟩, -⟩ := landed_entry landed listed named
        rw [total, Nat.one_mul]
        exact ⟨flight, response, found, state⟩
    refine ⟨later, replies, _, moves, ask_plain (List.all_eq_true.mpr fun reply member => ?_)
      (Option.map_eq_some_iff.mpr ⟨flights, told, rfl⟩)⟩
    exact Option.isSome_iff_ne_none.mpr (real reply member)
  rintro waiting replies last ⟨held, kept⟩ done
  obtain ⟨all, shared, asked, rfl⟩ := ask_done done
  have same : shared.db = waiting.shared.db := Interference.exec_db rfl asked
  obtain ⟨flights, told, -⟩ := Option.map_eq_some_iff.mp asked
  rw [total] at told
  obtain ⟨landed, replied⟩ := told_landed vacant held all told
  exact rest replies _ (same.trans kept) replied (await_landed landed asked)

/-- Between two rounds of requests: what the tables hold, and which ids have been drawn. -/
structure Held (library : Library) (nodes : Uuid → StorageNode.Settings) (known : Uuid → Prop)
    (base : Nat) (requests : List (Uuid × NodeRequest)) (db : Db) (ids : List Uuid)
    (world : World) : Prop where
  landed : Landed library nodes known base requests world
  db : world.shared.db = db
  issued : world.shared.issued.map (·.2) = ids

section Rules
variable {db : Db} {ids : List Uuid} (lowers : Links.AsciiLower library.unicode)
  (digests : ∀ data, (library.sha256 data).length = digestSize)
  (accepted : ∀ node, requireNodeToken (nodes node) (some token) = .ok ())
  (vacant : Vacant known requests)
include lowers digests accepted vacant

theorem held_stable : ∀ first last : World, NodeStep library nodes token first last →
    Held library nodes known base requests db ids first →
      Held library nodes known base requests db ids last := by
  intro first last step held
  have kept := step_kept step
  constructor
  case landed =>
    constructor
    · exact step_flying lowers digests accepted vacant step held.landed.flying
    · exact fun position below => step_answered step (held.landed.none_left position below)
  case db => exact kept.1.trans held.db
  case issued => rw [kept.2, held.issued]

theorem held_reads (request : Op) {next : Res request → Async Out}
    (reading : Interference.reads request)
    (held : Held library nodes known base requests db ids before)
    (rest : ∀ here answer, Held library nodes known base requests db ids here →
      exec thread here.shared request answer = some here.shared →
        Returns (ask thread) (NodeStep library nodes token) post (next answer) here) :
    Returns (ask thread) (NodeStep library nodes token) post (.op request next) before := by
  have easy : ∀ answer : Res request, patient request answer = true := by
    cases request with
    | await _ => exact reading.elim
    | _ => exact fun _ => rfl
  apply returns_op (held_stable lowers digests accepted vacant) held
  · intro here _
    have answered : ∃ answer, exec thread here.shared request answer = some here.shared := by
      cases request with
      | now => exact ⟨here.shared.clock, if_pos rfl⟩
      | shuffle nodes => exact ⟨nodes, if_pos (List.Perm.refl _)⟩
      | selectFiles condition => exact ⟨_, if_pos (List.Perm.refl _)⟩
      | selectPlaced condition => exact ⟨_, if_pos (List.Perm.refl _)⟩
      | selectNodes condition => exact ⟨_, if_pos (List.Perm.refl _)⟩
      | _ => exact reading.elim
    obtain ⟨answer, done⟩ := answered
    exact ⟨here, answer, _, .refl, ask_plain (easy answer) done⟩
  · intro here answer after still done
    obtain ⟨-, shared, asked, rfl⟩ := ask_done done
    obtain rfl := Interference.exec_reads reading asked
    exact rest here answer still asked

theorem held_uuid4 {next : Uuid → Async Out} (room : ids.length < 2 ^ 128)
    (held : Held library nodes known base requests db ids before)
    (rest : ∀ here id, id ∉ ids → Held library nodes known base requests db (id :: ids) here →
      Returns (ask thread) (NodeStep library nodes token) post (next id) here) :
    Returns (ask thread) (NodeStep library nodes token) post (.op .uuid4 next) before := by
  apply returns_op (held_stable lowers digests accepted vacant) held
  · intro here still
    obtain ⟨id, fresh⟩ := Reliable.unused_id ids room
    rw [← still.issued] at fresh
    exact ⟨here, id, _, .refl, ask_plain rfl (if_pos fresh)⟩
  · intro here id after still done
    obtain ⟨-, shared, asked, rfl⟩ := ask_done done
    obtain ⟨fresh, same⟩ := Option.ite_none_right_eq_some.mp asked
    cases same
    have landed : Landed library nodes known base requests { here with
        shared := { here.shared with issued := (thread, id) :: here.shared.issued } } :=
      ⟨exec_flying rfl asked still.landed.flying, still.landed.none_left⟩
    rw [still.issued] at fresh
    exact rest _ id fresh ⟨landed, still.db, congrArg (id :: ·) still.issued⟩

theorem held_commit {writes : List Write} {next : Unit → Async Out} {committed : Db}
    (applies : db.commit writes = some committed)
    (held : Held library nodes known base requests db ids before)
    (rest : ∀ here, Held library nodes known base requests committed ids here →
      Returns (ask thread) (NodeStep library nodes token) post (next ()) here) :
    Returns (ask thread) (NodeStep library nodes token) post (.op (.commit writes) next)
      before := by
  apply returns_op (held_stable lowers digests accepted vacant) held
  · intro here still
    rw [← still.db] at applies
    exact ⟨here, (), _, .refl, ask_plain rfl (Option.map_eq_some_iff.mpr ⟨committed, applies, rfl⟩)⟩
  · intro here _ after still done
    obtain ⟨-, shared, asked, rfl⟩ := ask_done done
    obtain ⟨db', applied, rfl⟩ := Option.map_eq_some_iff.mp asked
    rw [still.db, applies] at applied
    cases applied
    exact rest _ ⟨⟨exec_flying rfl asked still.landed.flying, still.landed.none_left⟩, rfl,
      still.issued⟩

theorem drawIds_returns (count : Nat) (room : ids.length + count ≤ 2 ^ 128)
    (held : Held library nodes known base requests db ids before) :
    Returns (ask thread) (NodeStep library nodes token)
      (fun drawn later => drawn.length = count ∧ drawn.Nodup ∧ (∀ id ∈ drawn, id ∉ ids) ∧
        Held library nodes known base requests db (drawn.reverse ++ ids) later)
      (drawIds count) before := by
  induction count generalizing ids before with
  | zero =>
      exact returns_ret (held_stable lowers digests accepted vacant) held
        fun later still => ⟨rfl, List.nodup_nil, by simp, still⟩
  | succ count ih =>
      apply held_uuid4 lowers digests accepted vacant (by omega) held
      intro here id fresh still
      apply returns_bind (ih (by rw [List.length_cons]; omega) still)
      rintro drawn later ⟨size, distinct, outside, further⟩
      have unseen : id ∉ drawn := fun again => outside id again List.mem_cons_self
      refine returns_ret (held_stable lowers digests accepted vacant) further fun last held => ?_
      refine ⟨?_, List.nodup_cons.mpr ⟨unseen, distinct⟩, ?_, ?_⟩
      · rw [List.length_cons, size]
      · intro other member
        rcases List.mem_cons.mp member with rfl | later
        · exact fresh
        · exact fun known => outside other later (List.mem_cons_of_mem _ known)
      · rw [List.reverse_cons, List.append_assoc]
        exact held

end Rules

end Steps

section Rows
variable {platform : Platform} {shared : Shared} {upload : Upload}

theorem rows_nodup (wf : WellFormed shared) :
    (shared.db.shards.map fun shard => (shard.fileId, shard.shardIndex)).Nodup := by
  apply List.Nodup.map_on _ (List.Nodup.of_map _ wf.shards_nodup)
  intro left inLeft right inRight same
  obtain ⟨owner, index⟩ := Prod.mk.inj same
  obtain ⟨file, present, named⟩ := List.mem_map.mp (wf.shards_owned left inLeft)
  obtain ⟨thread, original, shards, -, complete, -, sublist, -⟩ := wf.descends file present
  have numbers : ((shared.db.shardsOf file.id).map (·.shardIndex)).Nodup := by
    have columns := sublist.map Written.shardIndex
    rw [List.map_map, List.map_map] at columns
    apply List.Nodup.sublist columns
    change (shards.map (·.shardIndex)).Nodup
    rw [complete.indices]
    exact List.nodup_range
  have mine : ∀ shard ∈ shared.db.shards, shard.fileId = file.id →
      shard ∈ shared.db.shardsOf file.id :=
    fun shard member own => List.mem_filter.mpr ⟨member, decide_eq_true own⟩
  exact List.inj_on_of_nodup_map numbers (mine left inLeft named.symm)
    (mine right inRight (owner ▸ named.symm)) index

structure Begun (start : Shared) (upload : Upload) (file : File) (shards : List Shard) : Prop where
  fresh : ¬ Known start file.id
  size : file.sizeBytes = upload.data.length
  data : file.dataShards = upload.k
  parity : file.parityShards = upload.m
  unknown : ∀ shard ∈ shards, ¬ Known start shard.id
  distinct : (shards.map (·.id)).Nodup
  owned : ∀ shard ∈ shards, shard.fileId = file.id
  indices : shards.map (·.shardIndex) = List.range (upload.k + upload.m)
  hosted : ∀ shard ∈ shards, shard.nodeId ∈ start.db.nodes.map (·.id)

def begun (db : Db) (file : File) (shards : List Shard) : Db :=
  { db with files := db.files ++ [file], shards := db.shards ++ shards }

theorem file_unknown (wf : WellFormed shared) {id : Uuid} (fresh : ¬ Known shared id) :
    ∀ file ∈ shared.db.files, file.id ≠ id := by
  rintro file member rfl
  exact fresh (wf.used_issued _ (wf.files_used file member))

theorem shard_unknown (wf : WellFormed shared) {id : Uuid} (fresh : ¬ Known shared id) :
    ∀ shard ∈ shared.db.shards, shard.id ≠ id := by
  rintro shard member rfl
  exact fresh (wf.used_issued _ (wf.shards_used shard member))

theorem owner_unknown (wf : WellFormed shared) {id : Uuid} (fresh : ¬ Known shared id) :
    ∀ shard ∈ shared.db.shards, shard.fileId ≠ id := by
  intro shard member same
  obtain ⟨file, present, named⟩ := List.mem_map.mp (wf.shards_owned shard member)
  exact file_unknown wf fresh file present (named.trans same)

theorem begun_commits (wf : WellFormed shared) {file : File} {shards : List Shard}
    (rows : Begun shared upload file shards) (nonempty : 0 < upload.data.length)
    (positive : 1 ≤ upload.k) (spare : 1 ≤ upload.m) :
    shared.db.commit [.insertFile file, .insertShards shards] =
      some (begun shared.db file shards) := by
  have unlisted : file.id ∉ shared.db.files.map (·.id) := by
    intro listed
    obtain ⟨other, member, same⟩ := List.mem_map.mp listed
    exact file_unknown wf rows.fresh other member same
  have checks : file.checks = true := by
    unfold File.checks
    rw [rows.size, rows.data, rows.parity]
    exact decide_eq_true ⟨nonempty, positive, spare⟩
  have ids : ((shared.db.shards ++ shards).map (·.id)).Nodup := by
    rw [List.map_append]
    refine List.nodup_append.mpr ⟨wf.shards_nodup, rows.distinct, ?_⟩
    rintro id old other new rfl
    obtain ⟨shard, member, rfl⟩ := List.mem_map.mp new
    obtain ⟨earlier, present, same⟩ := List.mem_map.mp old
    exact shard_unknown wf (rows.unknown shard member) earlier present same
  have places : ((shared.db.shards ++ shards).map fun shard =>
      (shard.fileId, shard.shardIndex)).Nodup := by
    rw [List.map_append]
    refine List.nodup_append.mpr ⟨rows_nodup wf, ?_, ?_⟩
    · apply List.Nodup.of_map Prod.snd
      rw [List.map_map]
      change (shards.map (·.shardIndex)).Nodup
      rw [rows.indices]
      exact List.nodup_range
    · rintro place old other new rfl
      obtain ⟨shard, member, rfl⟩ := List.mem_map.mp new
      obtain ⟨earlier, present, same⟩ := List.mem_map.mp old
      exact owner_unknown wf rows.fresh earlier present
        ((Prod.mk.inj same).1.trans (rows.owned shard member))
  have accepts : Db.acceptsShards { shared.db with files := shared.db.files ++ [file] } shards =
      true := by
    refine decide_eq_true ⟨ids, places, fun shard member => ?_, rows.hosted⟩
    rw [rows.owned shard member]
    simp
  simp only [Db.commit, Db.write, if_pos (And.intro unlisted checks), Option.bind_some, accepts,
    if_true]
  rfl

theorem begun_shardsOf (wf : WellFormed shared) {file : File} {shards : List Shard}
    (rows : Begun shared upload file shards) :
    (begun shared.db file shards).shardsOf file.id = shards := by
  unfold Db.shardsOf begun
  rw [List.filter_append]
  have old : shared.db.shards.filter (·.fileId = file.id) = [] := by
    apply List.filter_eq_nil_iff.mpr
    intro shard member
    simpa using owner_unknown wf rows.fresh shard member
  have new : shards.filter (·.fileId = file.id) = shards := by
    apply List.filter_eq_self.mpr
    intro shard member
    exact decide_eq_true (rows.owned shard member)
  rw [old, new, List.nil_append]

def finished (db : Db) (file : File) (shards : List Shard) (event : AuditEvent) : Db :=
  { begun db file shards with
    files := db.files ++ [{ file with status := .available }]
    audit := db.audit ++ [event] }

theorem finished_commits (wf : WellFormed shared) {file : File} {shards : List Shard}
    (rows : Begun shared upload file shards) (event : AuditEvent)
    (untimed : event.ttlSeconds = none) (about : event.fileId = some file.id) :
    (begun shared.db file shards).commit [.setAvailable file.id, .audit event] =
      some (finished shared.db file shards event) := by
  have listed : file.id ∈ (begun shared.db file shards).files.map (·.id) := by simp [begun]
  have updated : File.update file.id (fun row => { row with status := .available })
      (begun shared.db file shards).files =
        shared.db.files ++ [{ file with status := .available }] := by
    unfold File.update begun
    rw [List.map_append, List.map_singleton, if_pos rfl]
    congr 1
    conv_rhs => rw [← List.map_id shared.db.files]
    apply List.map_congr_left
    intro row member
    rw [if_neg (file_unknown wf rows.fresh row member), id]
  have checks : event.checks = true := by simp [AuditEvent.checks, untimed]
  have known : event.fileId.all (· ∈ (shared.db.files ++
      [{ file with status := .available }]).map File.id) = true := by simp [about]
  simp only [Db.commit, Db.write, if_pos listed, Option.bind_some, updated,
    if_pos (And.intro checks known)]
  rfl

theorem finished_nodup (wf : WellFormed shared) {file : File} {shards : List Shard}
    (rows : Begun shared upload file shards) (event : AuditEvent) :
    ((finished shared.db file shards event).files.map (·.id)).Nodup := by
  unfold finished
  rw [List.map_append]
  refine List.nodup_append.mpr ⟨wf.files_nodup, List.nodup_singleton _, ?_⟩
  rintro id old other new rfl
  obtain ⟨row, member, same⟩ := List.mem_map.mp old
  rw [List.map_singleton, List.mem_singleton] at new
  exact file_unknown wf rows.fresh row member (same.trans new)

end Rows

def blocksOf (platform : Platform) (upload : Upload) : List Bytes :=
  (List.range (upload.k + upload.m)).map (codeBlock platform.zfec upload.data upload.k upload.m)

/-- `upload_file` from the replies to its PUTs on. -/
def concluded (upload : Upload) (file : File) (shards : List Shard) (results : List Reply) :
    Async (Except FilesError File) := do
  if results.all fun reply => succeeded (putShard reply) then
    commit [.setAvailable file.id,
      record .file_uploaded (some file.id) (some upload.ownerId) none upload.ipAddress]
    return .ok { file with status := .available }
  else
    rollBackUpload file.id shards
    return .error .uploadFailed

section Upload
variable {platform : Platform} {library : Library} {nodes : Uuid → StorageNode.Settings}
  {token : Bytes} {start : Shared} {upload : Upload} {file : File} {shards : List Shard}
  {blocks : List Bytes} {before : World} {thread : Tid}
  {post : Except FilesError File → World → Prop}

theorem putRequests_shard (shards : List Shard) (blocks : List Bytes)
    (count : shards.length = blocks.length) :
    (putRequests shards blocks).map (·.2.shard) = shards.map fun shard => some shard.id := by
  unfold putRequests
  rw [List.map_map]
  conv_rhs => rw [← List.map_fst_zip (Nat.le_of_eq count)]
  rw [List.map_map]
  rfl

theorem puts_vacant (rows : Begun start upload file shards) (count : shards.length = blocks.length)
    (sendable : ∀ block ∈ blocks, block ≠ [] ∧ block.length < 10 ^ StorageNode.maxStrDigits) :
    Vacant (Known start) (putRequests shards blocks) := by
  constructor
  case distinct =>
    rw [putRequests_shard shards blocks count]
    have ids := rows.distinct.map (Option.some_injective Uuid)
    rwa [List.map_map] at ids
  case named =>
    intro one member
    obtain ⟨⟨shard, block⟩, inside, rfl⟩ := List.mem_map.mp member
    exact ⟨shard.id, rfl, rows.unknown shard (List.of_mem_zip inside).1⟩
  case sendable =>
    intro one member
    obtain ⟨⟨shard, block⟩, inside, rfl⟩ := List.mem_map.mp member
    exact sendable block (List.of_mem_zip inside).2

theorem deletes_vacant (rows : Begun start upload file shards) :
    Vacant (Known start) (deleteRequests shards) := by
  constructor
  case distinct =>
    have ids := rows.distinct.map (Option.some_injective Uuid)
    rw [List.map_map] at ids
    unfold deleteRequests
    rw [List.map_map]
    exact ids
  case named =>
    intro one member
    obtain ⟨shard, inside, rfl⟩ := List.mem_map.mp member
    exact ⟨shard.id, rfl, rows.unknown shard inside⟩
  case sendable =>
    intro one member
    obtain ⟨shard, inside, rfl⟩ := List.mem_map.mp member
    trivial

theorem landed_quiet {known : Uuid → Prop} {base : Nat} {requests : List (Uuid × NodeRequest)}
    (landed : Landed library nodes known base requests before)
    (refused : ∀ one ∈ requests, (outcome library (nodes one.1).maxShardBytes one.2).2 = none) :
    Flying library nodes known (base + requests.length) [] before := by
  constructor
  case valid => exact landed.flying.valid
  case count => exact landed.flying.count
  case old =>
    intro index flight id early pending named
    by_cases older : index < base
    · exact landed.flying.old index flight id older pending named
    · have settled := landed.none_left (index - base) (by omega)
      rw [Nat.add_sub_cancel' (Nat.not_lt.mp older)] at settled
      cases settled.symm.trans pending
  case clean =>
    intro node id unknown _
    by_cases asked : ∃ one ∈ requests, one.1 = node ∧ one.2.shard = some id
    · obtain ⟨⟨here, request⟩, member, rfl, named⟩ := asked
      obtain ⟨position, below, listed⟩ := List.mem_iff_getElem.mp member
      have found : requests[position]? = some (here, request) :=
        List.getElem?_eq_some_iff.mpr ⟨below, listed⟩
      rw [(landed_entry landed found named).2]
      exact refused _ member
    · push Not at asked
      exact landed.flying.clean node id unknown asked
  case ours => simp

theorem replied_put (status : Nat) {replies : List Reply}
    (same : ∀ block ∈ blocks, ∀ node id,
      (outcome library (nodes node).maxShardBytes (.put id block)).1 = status)
    (replied : Replied library nodes (putRequests shards blocks) replies) :
    ∀ reply ∈ replies, ∃ response, reply = some response ∧ response.status = status := by
  intro reply member
  obtain ⟨position, below, rfl⟩ := List.mem_iff_getElem.mp member
  have below' : position < (putRequests shards blocks).length := by
    rw [replied.length_eq]
    exact below
  obtain ⟨response, told, answered⟩ := List.forall₂_iff_get.mp replied |>.2 position below' below
  obtain ⟨⟨shard, block⟩, inside, one⟩ :=
    List.mem_map.mp (List.get_mem (putRequests shards blocks) ⟨position, below'⟩)
  rw [← one] at answered
  exact ⟨response, told, answered.trans (same block (List.of_mem_zip inside).2 _ _)⟩

theorem blocks_size (mds : Mds platform.zfec upload.k (upload.k + upload.m))
    (positive : 1 ≤ upload.k) :
    ∀ block ∈ blocksOf platform upload, block.length = blockSize upload.data.length upload.k := by
  intro block member
  obtain ⟨index, inside, rfl⟩ := List.mem_map.mp member
  exact codeBlock_length mds positive (List.mem_range.mp inside)

theorem block_outcome (mds : Mds platform.zfec upload.k (upload.k + upload.m))
    (positive : 1 ≤ upload.k) {block : Bytes} (member : block ∈ blocksOf platform upload)
    (cap : Nat) (id : Uuid) :
    outcome library cap (.put id block) =
      if cap < blockSize upload.data.length upload.k then (413, none)
      else (201, some (shardFile library.sha256 block)) := by
  rw [outcome, blocks_size mds positive block member]

theorem putRequests_length (rows : Begun start upload file shards) :
    (putRequests shards (blocksOf platform upload)).length = upload.k + upload.m := by
  have count := congrArg List.length rows.indices
  rw [List.length_map, List.length_range] at count
  simp [putRequests, blocksOf, count]

variable (lowers : Links.AsciiLower library.unicode)
  (digests : ∀ data, (library.sha256 data).length = digestSize)
  (accepted : ∀ node, requireNodeToken (nodes node) (some token) = .ok ())
include lowers digests accepted

/-- An upload comes to its PUTs, whose ids are new to every node. -/
theorem uploadFile_sends (wf : WellFormed start) (nonempty : upload.data ≠ [])
    (positive : 1 ≤ upload.k) (spare : 1 ≤ upload.m)
    (mds : Mds platform.zfec upload.k (upload.k + upload.m))
    (enough : upload.k + upload.m ≤
      (start.db.nodes.filter fun node => node.status = .healthy).length)
    (room : start.issued.length + 1 + (upload.k + upload.m) ≤ 2 ^ 128)
    (short : blockSize upload.data.length upload.k < 10 ^ StorageNode.maxStrDigits)
    (held : Held library nodes (Known start) start.flights.length [] start.db
      (start.issued.map (·.2)) before) (began : Nat)
    (rest : ∀ file shards ids here replies, Begun start upload file shards →
      Vacant (Known start) (putRequests shards (blocksOf platform upload)) →
      Replied library nodes (putRequests shards (blocksOf platform upload)) replies →
      Held library nodes (Known start) start.flights.length
        (putRequests shards (blocksOf platform upload)) (begun start.db file shards) ids here →
      Returns (ask thread) (NodeStep library nodes token) post
        (concluded upload file shards replies) here) :
    Returns (ask thread) (NodeStep library nodes token) post
      (Files.uploadFile platform began upload) before := by
  have none : Vacant (Known start) [] := ⟨List.nodup_nil, by simp, by simp⟩
  unfold Files.uploadFile
  rw [encode_eq _ _ _ _ nonempty]
  apply held_reads lowers digests accepted none (.selectNodes _) trivial held
  intro here candidates held chosen
  obtain ⟨selected, -⟩ := Option.ite_none_right_eq_some.mp chosen
  rw [held.db] at selected
  dsimp only [Prog.bind]
  rw [if_neg (Nat.not_lt.mpr (enough.trans (Nat.le_of_eq selected.length_eq.symm)))]
  apply held_reads lowers digests accepted none (.shuffle candidates) trivial held
  intro here order held mixed
  obtain ⟨shuffled, -⟩ := Option.ite_none_right_eq_some.mp mixed
  have count : (order.take (upload.k + upload.m)).length = upload.k + upload.m := by
    rw [List.length_take, shuffled.length_eq, selected.length_eq]
    exact Nat.min_eq_left enough
  -- The hosts are drawn from the healthy nodes, so each has its row.
  have registered : ∀ node ∈ order.take (upload.k + upload.m), node ∈ start.db.nodes :=
    fun node member => (List.mem_filter.mp (selected.mem_iff.mp (shuffled.mem_iff.mp
      (List.mem_of_mem_take member)))).1
  dsimp only [Prog.bind]
  rw [if_neg (by rw [count]; simp)]
  generalize order.take (upload.k + upload.m) = placement at count registered
  have drawn : (start.issued.map (·.2)).length = start.issued.length := List.length_map _
  apply held_uuid4 lowers digests accepted none (by omega) held
  intro here fileId fresh held
  apply returns_bind (drawIds_returns lowers digests accepted none placement.length
    (by rw [List.length_cons]; omega) held)
  rintro ids here ⟨size, distinct, outside, held⟩
  have spec := Handlers.uploadedShards_spec platform upload fileId
    (codeBlock platform.zfec upload.data upload.k upload.m) 0 ids placement size
  rw [count, ← List.range_eq_range'] at spec
  dsimp only at spec ⊢
  generalize uploadedShards platform upload fileId 0 ids _ = shards at spec ⊢
  obtain ⟨indices, hosts, names, columns⟩ := spec
  -- All ids are fresh, and every shard has an index and a host of its own.
  have rows : Begun start upload (uploadedFile platform upload fileId began) shards := by
    constructor
    case fresh => exact fresh
    case size => rfl
    case data => rfl
    case parity => rfl
    case unknown =>
      intro shard member known
      exact outside shard.id (names ▸ List.mem_map_of_mem member) (List.mem_cons_of_mem _ known)
    case distinct => rw [names]; exact distinct
    case owned => exact fun shard member => (columns shard member).1
    case indices => exact indices
    case hosted =>
      intro shard member
      have host : shard.nodeId ∈ placement.map (·.id) := hosts ▸ List.mem_map_of_mem member
      obtain ⟨node, inside, same⟩ := List.mem_map.mp host
      rw [← same]
      exact List.mem_map_of_mem (registered node inside)
  have data := List.length_pos_iff.mpr nonempty
  apply held_commit lowers digests accepted none (begun_commits wf rows data positive spare) held
  intro here held
  -- No node can have heard of ids that have just been drawn.
  have vacant : Vacant (Known start) (putRequests shards (blocksOf platform upload)) := by
    apply puts_vacant rows
    · have all := congrArg List.length indices
      simpa [blocksOf] using all
    · intro block member
      have length := blocks_size mds positive block member
      rw [length]
      refine ⟨List.ne_nil_of_length_pos ?_, short⟩
      rw [length]
      exact blockSize_positive _ _ positive data
  refine gather_returns lowers digests accepted vacant held.landed.flying ?_
  intro replies later same replied landed
  exact rest _ shards _ later replies rows vacant replied ⟨landed, same.trans held.db, rfl⟩

def uploadEvent (upload : Upload) (file : File) : AuditEvent :=
  ⟨some file.id, some upload.ownerId, .file_uploaded, none, upload.ipAddress⟩

/-- The service has published the file of an upload, all of whose PUTs were answered. -/
def Published (platform : Platform) (library : Library) (nodes : Uuid → StorageNode.Settings)
    (start : Shared) (upload : Upload) (out : Except FilesError File) (world : World) : Prop :=
  ∃ file shards ids, Begun start upload file shards ∧
    Vacant (Known start) (putRequests shards (blocksOf platform upload)) ∧
    out = .ok { file with status := .available } ∧
    Held library nodes (Known start) start.flights.length
      (putRequests shards (blocksOf platform upload))
      (finished start.db file shards (uploadEvent upload file)) ids world

/-- Blocks within the limit are all taken, and the file becomes available. -/
theorem concluded_stored (wf : WellFormed start) (rows : Begun start upload file shards)
    (mds : Mds platform.zfec upload.k (upload.k + upload.m)) (positive : 1 ≤ upload.k)
    (fits : ∀ node, blockSize upload.data.length upload.k ≤ (nodes node).maxShardBytes)
    (vacant : Vacant (Known start) (putRequests shards (blocksOf platform upload)))
    {ids : List Uuid} {replies : List Reply}
    (replied : Replied library nodes (putRequests shards (blocksOf platform upload)) replies)
    (held : Held library nodes (Known start) start.flights.length
      (putRequests shards (blocksOf platform upload)) (begun start.db file shards) ids before) :
    Returns (ask thread) (NodeStep library nodes token)
      (Published platform library nodes start upload) (concluded upload file shards replies)
      before := by
  have taken : replies.all (fun reply => succeeded (putShard reply)) = true := by
    apply List.all_eq_true.mpr
    intro reply member
    apply Wire.succeeded_put.mpr
    apply replied_put 201 _ replied reply member
    intro block inside node id
    rw [block_outcome mds positive inside, if_neg (Nat.not_lt.mpr (fits node))]
  unfold concluded
  rw [if_pos taken]
  apply held_commit lowers digests accepted vacant
    (finished_commits wf rows (uploadEvent upload file) rfl rfl) held
  intro here held
  exact returns_ret (held_stable lowers digests accepted vacant) held
    fun later still => ⟨file, shards, ids, rows, vacant, rfl, still⟩

/-- Blocks above the limit are all refused, and the rows are taken back. -/
theorem concluded_refused (wf : WellFormed start) (rows : Begun start upload file shards)
    (mds : Mds platform.zfec upload.k (upload.k + upload.m)) (positive : 1 ≤ upload.k)
    (large : ∀ node, (nodes node).maxShardBytes < blockSize upload.data.length upload.k)
    {ids : List Uuid} {replies : List Reply}
    (replied : Replied library nodes (putRequests shards (blocksOf platform upload)) replies)
    (held : Held library nodes (Known start) start.flights.length
      (putRequests shards (blocksOf platform upload)) (begun start.db file shards) ids before) :
    Returns (ask thread) (NodeStep library nodes token)
      (fun out later => out = .error .uploadFailed ∧ later.shared.db.files = start.db.files)
      (concluded upload file shards replies) before := by
  -- Every node finds the block too large, whichever it gets.
  have outcomes : ∀ block ∈ blocksOf platform upload, ∀ node id,
      outcome library (nodes node).maxShardBytes (.put id block) = (413, none) := by
    intro block inside node id
    rw [block_outcome mds positive inside, if_pos (large node)]
  have refused : ¬ replies.all (fun reply => succeeded (putShard reply)) = true := by
    intro taken
    have some : 0 < replies.length := by
      rw [← replied.length_eq, putRequests_length rows]
      omega
    have first := List.getElem_mem some
    obtain ⟨response, told, created⟩ := Wire.succeeded_put.mp (List.all_eq_true.mp taken _ first)
    obtain ⟨other, same, status⟩ := replied_put 413
      (fun block inside node id => by rw [outcomes block inside node id]) replied _ first
    obtain rfl := Option.some.inj (told.symm.trans same)
    rw [created] at status
    cases status
  have none : ∀ one ∈ putRequests shards (blocksOf platform upload),
      (outcome library (nodes one.1).maxShardBytes one.2).2 = none := by
    intro one member
    obtain ⟨⟨shard, block⟩, inside, rfl⟩ := List.mem_map.mp member
    rw [outcomes block (List.of_mem_zip inside).2]
  unfold concluded
  rw [if_neg refused]
  change Returns _ _ _ ((rollBackUpload file.id shards).bind _) before
  -- The nodes write no rows.
  have unlisted : ∀ first last : World, NodeStep library nodes token first last →
      first.shared.db.files = start.db.files → last.shared.db.files = start.db.files := by
    intro first last step still
    rw [(step_kept step).1]
    exact still
  -- Every node deletes what it does not have, and the row goes with the commit.
  have rolledBack : Returns (ask thread) (NodeStep library nodes token)
      (fun _ later => later.shared.db.files = start.db.files) (rollBackUpload file.id shards)
      before := by
    have deletes := deletes_vacant rows
    refine gather_returns lowers digests accepted deletes (landed_quiet held.landed none) ?_
    intro answers later same deleted landed
    have gone : answers.all (fun reply => succeeded (deleteShard reply)) = true := by
      apply List.all_eq_true.mpr
      intro reply member
      obtain ⟨position, below, rfl⟩ := List.mem_iff_getElem.mp member
      have below' : position < (deleteRequests shards).length := by
        rw [deleted.length_eq]
        exact below
      obtain ⟨response, told, status⟩ :=
        (List.forall₂_iff_get.mp deleted).2 position below' below
      obtain ⟨shard, -, one⟩ :=
        List.mem_map.mp (List.get_mem (deleteRequests shards) ⟨position, below'⟩)
      rw [← one] at status
      change answers[position] = some response at told
      rw [told]
      simp [deleteShard, succeeded, status, outcome]
    rw [if_pos gone]
    apply held_commit lowers digests accepted deletes rfl
      ⟨landed, same.trans held.db, rfl⟩
    intro here still
    refine returns_ret (held_stable lowers digests accepted deletes) still fun last done => ?_
    rw [done.db]
    change (start.db.files ++ [file]).filter (·.id ≠ file.id) = start.db.files
    rw [List.filter_append]
    have old : start.db.files.filter (·.id ≠ file.id) = start.db.files := by
      apply List.filter_eq_self.mpr
      intro row member
      exact decide_eq_true (file_unknown wf rows.fresh row member)
    rw [old]
    simp
  exact returns_bind rolledBack fun _ later same =>
    returns_ret unlisted same fun last still => ⟨rfl, still⟩

end Upload

/-- A block has passed every check of its node, and is there. -/
structure Passed (library : Library) (index : Nat) (shard : Shard) (block : Bytes) (world : World) :
    Prop where
  created : ∃ flight response, world.shared.flights[index]? = some flight ∧
    flight.node = shard.nodeId ∧ flight.request = .put shard.id block ∧
    flight.state = .answered response ∧ response.status = 201
  kept : (world.disks shard.nodeId).shard shard.id = some (shardFile library.sha256 block)

/-- A new file is available, and each of its blocks has passed. -/
structure Stored (platform : Platform) (library : Library) (data : Bytes) (k m : Nat)
    (start : Shared) (file : File) (world : World) : Prop where
  fresh : ¬ Known start file.id
  listed : file ∈ world.shared.db.files
  available : file.status = .available
  blocks : ∃ blocks, encode platform.zfec data k m = .ok blocks ∧
    (world.shared.db.shardsOf file.id).length = blocks.length ∧
    ∀ position shard block, (world.shared.db.shardsOf file.id)[position]? = some shard →
      blocks[position]? = some block →
        Passed library (start.flights.length + position) shard block world

section Handler
variable {platform : Platform} {library : Library} {nodes : Uuid → StorageNode.Settings}
  {start : Shared} {upload : Upload} {file : File} {shards : List Shard} {before : World}
  {ids : List Uuid}

theorem held_stored (wf : WellFormed start) (rows : Begun start upload file shards)
    (nonempty : upload.data ≠ []) (mds : Mds platform.zfec upload.k (upload.k + upload.m))
    (positive : 1 ≤ upload.k)
    (fits : ∀ node, blockSize upload.data.length upload.k ≤ (nodes node).maxShardBytes)
    (held : Held library nodes (Known start) start.flights.length
      (putRequests shards (blocksOf platform upload))
      (finished start.db file shards (uploadEvent upload file)) ids before) :
    Stored platform library upload.data upload.k upload.m start
      { file with status := .available } before := by
  have owned : before.shared.db.shardsOf file.id = shards := by
    rw [held.db]
    exact begun_shardsOf wf rows
  constructor
  case fresh => exact rows.fresh
  case listed =>
    rw [held.db]
    exact List.mem_append_right _ (List.mem_singleton.mpr rfl)
  case available => rfl
  case blocks =>
    have count := congrArg List.length rows.indices
    rw [List.length_map, List.length_range] at count
    refine ⟨blocksOf platform upload, encode_eq _ _ _ _ nonempty, ?_, ?_⟩
    · change (before.shared.db.shardsOf file.id).length = _
      rw [owned, count, blocksOf, List.length_map, List.length_range]
    · intro position shard block here there
      change (before.shared.db.shardsOf file.id)[position]? = some shard at here
      rw [owned] at here
      have listed : (putRequests shards (blocksOf platform upload))[position]? =
          some (shard.nodeId, .put shard.id block) := by
        have paired : (shards.zip (blocksOf platform upload))[position]? = some (shard, block) :=
          List.getElem?_zip_eq_some.mpr ⟨here, there⟩
        rw [putRequests, List.getElem?_map, paired]
        rfl
      obtain ⟨⟨flight, response, found, node, carried, state, status⟩, entry⟩ :=
        landed_entry held.landed listed rfl
      rw [block_outcome mds positive (List.mem_of_getElem? there),
        if_neg (Nat.not_lt.mpr (fits shard.nodeId))] at status entry
      exact ⟨⟨flight, response, found, node, carried, state, status⟩, entry⟩

end Handler

theorem accepted_counts {unicode : Unicode} {settings : Configuration.Settings}
    (passed : settings.accepted unicode = true) :
    1 ≤ settings.shardDataCount ∧ 1 ≤ settings.shardParityCount ∧
      settings.shardDataCount + settings.shardParityCount ≤ maxTotalShards := by
  unfold Configuration.Settings.accepted at passed
  have checks := of_decide_eq_true (Bool.and_eq_true_iff.mp passed).1
  exact ⟨checks.2.2.1, checks.2.2.2.1, checks.2.2.2.2.2.2.2.2.2.1⟩

def uploadOf (request : Routers.UploadRequest) (filename contentType : Text) (data : Bytes) :
    Upload where
  ownerId := request.userId
  filename := filename
  contentType := contentType
  data := data
  k := request.settings.shardDataCount
  m := request.settings.shardParityCount
  ipAddress := request.ipAddress

def respond : Except FilesError File → Async Routers.Response
  | .error .insufficientNodes =>
      return Routers.httpException 503 "not enough healthy storage nodes"
  | .error .uploadFailed => return Routers.httpException 502 "storage write failed, retry"
  | .error _ => return Routers.internalError
  | .ok file => do
      match ← Session.getFile file.id with
      | none => return Routers.internalError
      | some refreshed =>
          let states ← availability [refreshed]
          let out := Routers.fileOut refreshed states
          return ⟨201, .fileOut out.1 out.2⟩

/-- An admitted request, on nodes that take its requests. -/
structure Admitted (platform : Platform) (library : Library) (token : Bytes)
    (nodes : Uuid → StorageNode.Settings) (start : Shared) (request : Routers.UploadRequest)
    (filename contentType : Text) (data : Bytes) : Prop where
  settings : request.settings.accepted platform.unicode = true
  rate : request.rateAllowed = true
  given : request.upload = some (filename, contentType, data)
  nonempty : 1 ≤ data.length
  within : data.length ≤ request.settings.maxUploadBytes
  enough : request.settings.shardDataCount + request.settings.shardParityCount ≤
    (start.db.nodes.filter fun node => node.status = .healthy).length
  token : ∀ node, requireNodeToken (nodes node) (some token) = .ok ()

structure Platforms (platform : Platform) (library : Library) (k n : Nat) : Prop where
  lowers : Links.AsciiLower library.unicode
  digests : ∀ data, (library.sha256 data).length = digestSize
  mds : Mds platform.zfec k n

section Request
variable {platform : Platform} {library : Library} {nodes : Uuid → StorageNode.Settings}
  {token : Bytes} {start : Shared} {thread : Tid} {before : World} {request : Routers.UploadRequest}
  {filename contentType : Text} {data : Bytes} {post : Routers.Response → World → Prop}

theorem request_sends (known : Platforms platform library request.settings.shardDataCount
      (request.settings.shardDataCount + request.settings.shardParityCount))
    (admitted : Admitted platform library token nodes start request filename contentType data)
    (wf : WellFormed start)
    (room : start.issued.length + 1 +
      (request.settings.shardDataCount + request.settings.shardParityCount) ≤ 2 ^ 128)
    (short : blockSize data.length request.settings.shardDataCount < 10 ^ StorageNode.maxStrDigits)
    (held : Held library nodes (Known start) start.flights.length [] start.db
      (start.issued.map (·.2)) before)
    {between : Except FilesError File → World → Prop}
    (ends : ∀ file shards ids here replies,
      Begun start (uploadOf request filename contentType data) file shards →
      Vacant (Known start)
        (putRequests shards (blocksOf platform (uploadOf request filename contentType data))) →
      Replied library nodes
        (putRequests shards (blocksOf platform (uploadOf request filename contentType data)))
        replies →
      Held library nodes (Known start) start.flights.length
        (putRequests shards (blocksOf platform (uploadOf request filename contentType data)))
        (begun start.db file shards) ids here →
      Returns (ask thread) (NodeStep library nodes token) between
        (concluded (uploadOf request filename contentType data) file shards replies) here)
    (tail : ∀ out later, between out later →
      Returns (ask thread) (NodeStep library nodes token) post (respond out) later) :
    Returns (ask thread) (NodeStep library nodes token) post (Routers.uploadFile platform request)
      before := by
  obtain ⟨positive, spare, -⟩ := accepted_counts admitted.settings
  have nonempty := List.ne_nil_of_length_pos admitted.nonempty
  have none : Vacant (Known start) [] := ⟨List.nodup_nil, by simp, by simp⟩
  unfold Routers.uploadFile
  apply held_reads known.lowers known.digests admitted.token none .now trivial held
  intro here began held _
  dsimp only [Prog.bind]
  rw [if_neg (by simp [admitted.rate]), admitted.given]
  dsimp only
  rw [if_neg (Nat.not_lt.mpr admitted.within), if_neg nonempty]
  change Returns _ _ _ ((Files.uploadFile platform began
    (uploadOf request filename contentType data)).bind respond) here
  apply returns_bind ?_ tail
  exact uploadFile_sends known.lowers known.digests admitted.token wf nonempty positive spare
    known.mds admitted.enough room short held began ends

theorem request_stored (known : Platforms platform library request.settings.shardDataCount
      (request.settings.shardDataCount + request.settings.shardParityCount))
    (admitted : Admitted platform library token nodes start request filename contentType data)
    (wf : WellFormed start)
    (room : start.issued.length + 1 +
      (request.settings.shardDataCount + request.settings.shardParityCount) ≤ 2 ^ 128)
    (short : blockSize data.length request.settings.shardDataCount < 10 ^ StorageNode.maxStrDigits)
    (held : Held library nodes (Known start) start.flights.length [] start.db
      (start.issued.map (·.2)) before)
    (fits : ∀ node, blockSize data.length request.settings.shardDataCount ≤
      (nodes node).maxShardBytes) :
    Returns (ask thread) (NodeStep library nodes token)
      (fun response later => response.status = 201 ∧ ∃ file,
        Stored platform library data request.settings.shardDataCount
          request.settings.shardParityCount start file later)
      (Routers.uploadFile platform request) before := by
  obtain ⟨positive, -, -⟩ := accepted_counts admitted.settings
  have nonempty := List.ne_nil_of_length_pos admitted.nonempty
  apply request_sends known admitted wf room short held
    fun file shards ids here replies rows vacant replied held =>
      concluded_stored known.lowers known.digests admitted.token wf rows known.mds positive fits
        vacant replied held
  rintro out later ⟨file, shards, ids, rows, vacant, rfl, held⟩
  apply held_reads known.lowers known.digests admitted.token vacant (.selectFiles _) trivial held
  intro here found held done
  obtain ⟨order, -⟩ := Option.ite_none_right_eq_some.mp done
  rw [held.db] at order
  have listed : { file with status := .available } ∈ (finished start.db file shards
      (uploadEvent (uploadOf request filename contentType data) file)).files :=
    List.mem_append_right _ (List.mem_singleton.mpr rfl)
  have head := Restoration.found_head (finished_nodup wf rows _) listed order
  dsimp only [Prog.bind]
  rw [head]
  apply held_reads known.lowers known.digests admitted.token vacant (.selectPlaced _) trivial held
  intro last placed held _
  refine returns_ret (held_stable known.lowers known.digests admitted.token vacant) held
    fun final still => ⟨rfl, _, held_stored wf rows nonempty known.mds positive fits still⟩

theorem request_refused (known : Platforms platform library request.settings.shardDataCount
      (request.settings.shardDataCount + request.settings.shardParityCount))
    (admitted : Admitted platform library token nodes start request filename contentType data)
    (wf : WellFormed start)
    (room : start.issued.length + 1 +
      (request.settings.shardDataCount + request.settings.shardParityCount) ≤ 2 ^ 128)
    (short : blockSize data.length request.settings.shardDataCount < 10 ^ StorageNode.maxStrDigits)
    (held : Held library nodes (Known start) start.flights.length [] start.db
      (start.issued.map (·.2)) before)
    (large : ∀ node, (nodes node).maxShardBytes <
      blockSize data.length request.settings.shardDataCount) :
    Returns (ask thread) (NodeStep library nodes token)
      (fun response later => response.status = 502 ∧ later.shared.db.files = start.db.files)
      (Routers.uploadFile platform request) before := by
  obtain ⟨positive, -, -⟩ := accepted_counts admitted.settings
  apply request_sends known admitted wf room short held
    fun file shards ids here replies rows _ replied held =>
      concluded_refused known.lowers known.digests admitted.token wf rows known.mds positive large
        replied held
  rintro out later ⟨rfl, same⟩
  refine returns_ret ?_ same fun last still => ⟨rfl, still⟩
  intro first last step still
  rw [(step_kept step).1]
  exact still

end Request

theorem reached_held {platform : Platform} {library : Library}
    {nodes : Uuid → StorageNode.Settings} {clock : Nat} {labels : List ServiceLabel}
    {config : ServiceConfig} (run : Run (Step (service platform)) (deployed clock) labels config)
    {disks : Uuid → Disk} (valid : ∀ node, (disks node).Valid)
    (tidy : ∀ node id, (disks node).shard id ≠ none → Known config.shared id) :
    Held library nodes (Known config.shared) config.shared.flights.length [] config.shared.db
      (config.shared.issued.map (·.2)) ⟨config.shared, disks⟩ := by
  refine ⟨⟨?_, by simp⟩, rfl, rfl⟩
  constructor
  case valid => exact valid
  case count => rfl
  case old =>
    intro index flight id _ pending named
    have found := List.mem_of_getElem? (Wire.pending_found pending).1
    exact (run_recorded run).named flight found id named
  case clean =>
    intro node id unknown _
    by_contra present
    exact unknown (tidy node id present)
  case ours => simp

theorem default_short : defaultMaxShardBytes < 10 ^ StorageNode.maxStrDigits :=
  calc
    defaultMaxShardBytes < 10 ^ 8 := by decide
    _ ≤ 10 ^ StorageNode.maxStrDigits := Nat.pow_le_pow_right (by decide) (by decide)

/-- An admitted upload whose blocks a node takes by default is stored: from any state of the
service, its program can always go on, each PUT passes, and the file ends up available. -/
theorem upload_storable (platform : Platform) (library : Library) (token : Bytes)
    (nodes : Uuid → StorageNode.Settings)
    (default : ∀ node, (nodes node).maxShardBytes = defaultMaxShardBytes)
    (clock : Nat) (labels : List ServiceLabel) (config : ServiceConfig)
    (run : Run (Step (service platform)) (deployed clock) labels config)
    (disks : Uuid → Disk) (valid : ∀ node, (disks node).Valid)
    (tidy : ∀ node id, (disks node).shard id ≠ none → Known config.shared id)
    (request : Routers.UploadRequest) (filename contentType : Text) (data : Bytes)
    (known : Platforms platform library request.settings.shardDataCount
      (request.settings.shardDataCount + request.settings.shardParityCount))
    (admitted : Admitted platform library token nodes config.shared request filename contentType
      data)
    (room : config.shared.issued.length + 1 +
      (request.settings.shardDataCount + request.settings.shardParityCount) ≤ 2 ^ 128)
    (fits : blockSize data.length request.settings.shardDataCount ≤ defaultMaxShardBytes)
    (thread : Tid) :
    Returns (ask thread) (NodeStep library nodes token)
      (fun response world => response.status = 201 ∧ ∃ file,
        Stored platform library data request.settings.shardDataCount
          request.settings.shardParityCount config.shared file world)
      (Routers.uploadFile platform request) ⟨config.shared, disks⟩ := by
  apply request_stored known admitted (service_safe run).inv room (fits.trans_lt default_short)
    (reached_held run valid tidy)
  intro node
  rw [default node]
  exact fits

/-- Every node has the same token, and the limit of its defaults. -/
def defaultNode (_ : Uuid) : StorageNode.Settings := ⟨List.replicate 32 'k', defaultMaxShardBytes⟩

def smallToken : Bytes := List.replicate 32 107

theorem smallToken_accepted (node : Uuid) :
    requireNodeToken (defaultNode node) (some smallToken) = .ok () := by
  have all : latin1 smallToken = List.replicate 32 'k' := by decide
  simp [requireNodeToken, StorageNode.compareDigest, defaultNode, all, bind, Except.bind, ascii,
    pure, Except.pure]

theorem two_registered : ∃ labels config, Run (Step (service plain)) (deployed 0) labels config ∧
    config.shared.db.nodes = [healthyNode 1, healthyNode 2] ∧ config.shared.issued = [] := by
  obtain ⟨labels, config, run, passed⟩ := drive_reaches (service plain) (deployed 0)
    [.env (.register (healthyNode 1)), .env (.register (healthyNode 2))]
    (fun _ config => decide (config.shared.db.nodes = [healthyNode 1, healthyNode 2] ∧
      config.shared.issued = [])) (by decide)
  exact ⟨labels, config, run, of_decide_eq_true passed⟩

theorem empty_tidy (shared : Shared) (node id : Uuid)
    (present : ((fun _ => StorageNode.emptyDisk : Uuid → Disk) node).shard id ≠ none) :
    Known shared id := absurd rfl present

theorem small_known : Platforms plain StorageNode.smallLibrary 1 2 :=
  ⟨Scrub.small_ascii, StorageNode.smallLibrary_digests, replication_mds 2⟩

theorem upload_storable_small : ∃ config : ServiceConfig, ∃ answers response final file,
    Executes (ask (.api 0)) (NodeStep StorageNode.smallLibrary defaultNode smallToken)
        (Routers.uploadFile plain smallUpload) ⟨config.shared, fun _ => StorageNode.emptyDisk⟩
        answers response final ∧ response.status = 201 ∧
      Stored plain StorageNode.smallLibrary [7] 1 1 config.shared file final := by
  obtain ⟨labels, config, run, registered, unissued⟩ := two_registered
  have admitted : Admitted plain StorageNode.smallLibrary smallToken defaultNode config.shared
      smallUpload ['f'] ['t'] [7] := by
    constructor
    case settings => decide +kernel
    case rate => rfl
    case given => rfl
    case nonempty => decide
    case within => decide
    case enough =>
      rw [registered]
      decide
    case token => exact smallToken_accepted
  have returns := upload_storable plain StorageNode.smallLibrary smallToken defaultNode
    (fun _ => rfl) 0 labels config run (fun _ => StorageNode.emptyDisk)
    (fun _ => StorageNode.emptyDisk_valid)
    (empty_tidy config.shared) smallUpload ['f'] ['t'] [7] small_known admitted
    (by rw [unissued]; decide) (by decide) (.api 0)
  obtain ⟨answers, response, final, executes⟩ := returns_runs returns
  obtain ⟨created, file, stored⟩ := returns_executes returns executes
  exact ⟨config, answers, response, final, file, executes, created, stored⟩

/-- One byte more than a node takes, and less than an upload may have by default. -/
def largeData : Bytes := List.replicate (defaultMaxShardBytes + 1) 0

def largeUpload : Routers.UploadRequest :=
  { smallUpload with
    settings := { smallSettings with maxUploadBytes := 100 * 1024 * 1024 }
    upload := some (['f'], ['t'], largeData) }

/-- Not every admitted upload is stored: with one data shard, a block of one byte too many is
refused by both nodes, and the client is told to try again. -/
theorem upload_unstorable :
    ¬ ∀ (platform : Platform) (library : Library) (token : Bytes)
      (nodes : Uuid → StorageNode.Settings)
      (_ : ∀ node, (nodes node).maxShardBytes = defaultMaxShardBytes)
      (clock : Nat) (labels : List ServiceLabel) (config : ServiceConfig)
      (_ : Run (Step (service platform)) (deployed clock) labels config)
      (disks : Uuid → Disk) (_ : ∀ node, (disks node).Valid)
      (_ : ∀ node id, (disks node).shard id ≠ none → Known config.shared id)
      (request : Routers.UploadRequest) (filename contentType : Text) (data : Bytes)
      (_ : Platforms platform library request.settings.shardDataCount
        (request.settings.shardDataCount + request.settings.shardParityCount))
      (_ : Admitted platform library token nodes config.shared request filename contentType data)
      (_ : config.shared.issued.length + 1 +
        (request.settings.shardDataCount + request.settings.shardParityCount) ≤ 2 ^ 128)
      (thread : Tid),
      Returns (ask thread) (NodeStep library nodes token)
        (fun response world => response.status = 201 ∧ ∃ file,
          Stored platform library data request.settings.shardDataCount
            request.settings.shardParityCount config.shared file world)
        (Routers.uploadFile platform request) ⟨config.shared, disks⟩ := by
  intro always
  obtain ⟨labels, config, run, registered, unissued⟩ := two_registered
  have length : largeData.length = defaultMaxShardBytes + 1 := List.length_replicate
  -- One data shard holds the whole upload: one byte more than a node takes.
  have size : blockSize largeData.length 1 = defaultMaxShardBytes + 1 := by
    rw [blockSize, length, Nat.add_sub_cancel, Nat.div_one]
  have admitted : Admitted plain StorageNode.smallLibrary smallToken defaultNode config.shared
      largeUpload ['f'] ['t'] largeData := by
    constructor
    case settings => decide +kernel
    case rate => rfl
    case given => rfl
    case nonempty =>
      rw [length]
      decide
    case within =>
      rw [length]
      decide
    case enough =>
      rw [registered]
      decide
    case token => exact smallToken_accepted
  have room : config.shared.issued.length + 1 + (1 + 1) ≤ 2 ^ 128 := by
    rw [unissued]
    decide
  have stored := always plain StorageNode.smallLibrary smallToken defaultNode (fun _ => rfl) 0
    labels config run (fun _ => StorageNode.emptyDisk) (fun _ => StorageNode.emptyDisk_valid)
    (empty_tidy config.shared) largeUpload ['f'] ['t'] largeData small_known admitted room (.api 0)
  have short : blockSize largeData.length 1 < 10 ^ StorageNode.maxStrDigits := by
    rw [size]
    calc
      defaultMaxShardBytes + 1 < 10 ^ 8 := by decide
      _ ≤ 10 ^ StorageNode.maxStrDigits := Nat.pow_le_pow_right (by decide) (by decide)
  have held : Held StorageNode.smallLibrary defaultNode (Known config.shared)
      config.shared.flights.length [] config.shared.db (config.shared.issued.map (·.2))
      ⟨config.shared, fun _ => StorageNode.emptyDisk⟩ :=
    reached_held run (fun _ => StorageNode.emptyDisk_valid) (empty_tidy config.shared)
  have large : ∀ node, (defaultNode node).maxShardBytes < blockSize largeData.length 1 := by
    intro node
    rw [size]
    exact Nat.lt_succ_self _
  have refused : Returns (ask (.api 0)) (NodeStep StorageNode.smallLibrary defaultNode smallToken)
      (fun response later => response.status = 502 ∧
        later.shared.db.files = config.shared.db.files)
      (Routers.uploadFile plain largeUpload) ⟨config.shared, fun _ => StorageNode.emptyDisk⟩ :=
    request_refused small_known admitted (service_safe run).inv room short held large
  -- One execution would be answered with both 201 and 502.
  obtain ⟨answers, response, final, executes⟩ := returns_runs stored
  have created := (returns_executes stored executes).1
  have denied := (returns_executes refused executes).1
  rw [created] at denied
  cases denied

end SecureFileSystem.Storable
