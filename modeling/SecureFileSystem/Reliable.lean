import SecureFileSystem.Layering
import SecureFileSystem.Objects
import SecureFileSystem.Records

/-!
The worker on its own, with nodes that answer everything it asks. Objects that
rows name stay where they are, a PUT under a fresh id succeeds, and no request
is ever stuck.
-/

namespace SecureFileSystem.Reliable

open Base Database Fleet Session LifeCycle Program Transition RelyGuarantee Progress Service
  Interference Stability Guarantees Wire Objects Records Layering

/-- Nothing goes wrong with what was sent from `base` on. Older requests may
still come in, but none of them deletes an object that a row names. -/
def Calm (base : Nat) (shared : Shared) : Event → Prop
  | .tick _ => True
  | .execute handle => handle < base → ∀ flight, shared.pending handle = some flight →
      ∀ row ∈ shared.db.shards, flight.node = row.nodeId → flight.request ≠ .delete row.id
  | .lose handle | .misreply handle _ => handle < base
  | _ => False

/-- No other thread moves, and the worker is told an answer to whatever it asks. -/
def Promptly (base : Nat) (shared : Shared) : ServiceLabel → Prop
  | .start _ _ | .fail _ => False
  | .act thread (.await _) replies => thread = .worker ∧ ∀ reply : Reply, reply ∈ replies → reply ≠ none
  | .act thread _ _ => thread = .worker
  | .env event => Calm base shared event
  | _ => True

structure Serves (start shared : Shared) : Prop where
  files : shared.db.files = start.db.files
  nodes : shared.db.nodes = start.db.nodes
  log : ∀ entry ∈ start.log, entry ∈ shared.log
  length : start.flights.length ≤ shared.flights.length
  named : ∀ flight ∈ shared.flights, ∀ id, flight.request.shard = some id → Known shared id
  tidy : ∀ node id, shared.objects node id ≠ none → Known shared id
  gone : ∀ (index : Nat) (flight : Flight Tid) (id : Uuid), start.flights.length ≤ index →
    shared.flights[index]? = some flight → flight.request = .delete id →
      ∀ row ∈ shared.db.shards, row.id ≠ id
  kept : ∀ (index : Nat) (flight : Flight Tid), start.flights.length ≤ index →
    shared.flights[index]? = some flight → flight.state ≠ .lost

def Intact (platform : Platform) (shared : Shared) (row : Shard) : Prop :=
  ∃ data, shared.objects row.nodeId row.id = some ⟨platform.sha256Hex data, data⟩ ∧
    platform.sha256Hex data = row.checksumSha256

section World
variable {platform : Platform} {start before after : Shared} {event : Event}

theorem calm_db (calm : Calm start.flights.length before event)
    (done : environment platform before event = some after) : after.db = before.db := by
  cases event with
  | tick _ => cases done; rfl
  | execute handle =>
      obtain ⟨flight, -, rfl⟩ := Option.map_eq_some_iff.mp done
      unfold Shared.execute
      split <;> rfl
  | lose handle =>
      obtain ⟨flight, -, rfl⟩ := Option.map_eq_some_iff.mp done
      rfl
  | misreply handle response =>
      obtain ⟨flight, -, rfl⟩ := Option.map_eq_some_iff.mp done
      rfl
  | damage _ _ _ => exact calm.elim
  | operator _ _ => exact calm.elim
  | register _ => exact calm.elim

theorem calm_objects (calm : Calm start.flights.length before event)
    (done : environment platform before event = some after) {node id : Uuid}
    (other : ∀ handle flight, event = .execute handle → before.pending handle = some flight →
      ¬ (flight.node = node ∧ flight.request.shard = some id)) :
    after.objects node id = before.objects node id := by
  cases event with
  | tick _ => cases done; rfl
  | execute handle =>
      obtain ⟨flight, pending, rfl⟩ := Option.map_eq_some_iff.mp done
      rw [execute_objects]
      exact if_neg (other handle flight rfl pending)
  | lose handle =>
      obtain ⟨flight, -, rfl⟩ := Option.map_eq_some_iff.mp done
      rfl
  | misreply handle response =>
      obtain ⟨flight, -, rfl⟩ := Option.map_eq_some_iff.mp done
      rfl
  | damage _ _ _ => exact calm.elim
  | operator _ _ => exact calm.elim
  | register _ => exact calm.elim

theorem calm_present (serves : Serves start before) (calm : Calm start.flights.length before event)
    (done : environment platform before event = some after) {row : Shard}
    (named : row ∈ before.db.shards) {entry : StoredShard}
    (held : before.objects row.nodeId row.id = some entry) :
    after.objects row.nodeId row.id = some entry := by
  by_cases touches : ∃ handle flight, event = .execute handle ∧
      before.pending handle = some flight ∧ flight.node = row.nodeId ∧
        flight.request.shard = some row.id
  · obtain ⟨handle, flight, rfl, pending, node, shard⟩ := touches
    obtain ⟨found, -⟩ := pending_found pending
    obtain ⟨executed, there, rfl⟩ := Option.map_eq_some_iff.mp done
    obtain rfl := Option.some.inj (there.symm.trans pending)
    rw [execute_objects, if_pos ⟨node, shard⟩, held]
    apply serve_present
    intro id deletes
    rw [deletes] at shard
    cases shard
    by_cases old : handle < start.flights.length
    · exact calm old executed there row named node deletes
    · exact serves.gone handle executed row.id (Nat.not_lt.mp old) found deletes row named rfl
  · rw [calm_objects calm done, held]
    exact fun handle flight same pending both => touches ⟨handle, flight, same, pending, both⟩

theorem calm_intact (serves : Serves start before) (calm : Calm start.flights.length before event)
    (done : environment platform before event = some after) {row : Shard}
    (named : row ∈ before.db.shards) (intact : Intact platform before row) :
    Intact platform after row := by
  obtain ⟨data, held, checksum⟩ := intact
  exact ⟨data, calm_present serves calm done named held, checksum⟩

theorem calm_lost (calm : Calm start.flights.length before event)
    (done : environment platform before event = some after) {index : Nat} {flight : Flight Tid}
    (late : start.flights.length ≤ index) (found : after.flights[index]? = some flight)
    (lost : flight.state = .lost) :
    ∃ old, before.flights[index]? = some old ∧ old.state = .lost := by
  obtain ⟨old, there, follows⟩ := environment_flight event done found
  rcases follows.state with still | waiting
  · exact ⟨old, there, still.symm.trans lost⟩
  · exfalso
    have settled : ∀ {handle asked} (state : FlightState), before.pending handle = some asked →
        (before.flights.set handle { asked with state := state })[index]? = some flight →
        index = handle ∧ flight = { asked with state := state } := by
      intro handle asked state pending inside
      rcases set_flight _ (pending_found pending).1 inside with same | ⟨same, -, changed⟩
      · obtain rfl := Option.some.inj (same.symm.trans there)
        rw [waiting] at lost
        cases lost
      · exact ⟨same, changed⟩
    have unchanged : after.flights = before.flights → False := by
      intro same
      rw [same] at found
      obtain rfl := Option.some.inj (found.symm.trans there)
      rw [waiting] at lost
      cases lost
    cases event with
    | tick _ => cases done; exact unchanged rfl
    | execute handle =>
        obtain ⟨asked, pending, rfl⟩ := Option.map_eq_some_iff.mp done
        unfold Shared.execute at found
        split at found
        · obtain ⟨-, rfl⟩ := settled _ pending found
          cases lost
        · obtain ⟨-, rfl⟩ := settled _ pending found
          cases lost
    | lose handle =>
        obtain ⟨asked, pending, rfl⟩ := Option.map_eq_some_iff.mp done
        obtain ⟨rfl, -⟩ := settled _ pending found
        exact absurd calm (Nat.not_lt.mpr late)
    | misreply handle response =>
        obtain ⟨asked, pending, rfl⟩ := Option.map_eq_some_iff.mp done
        obtain ⟨rfl, -⟩ := settled _ pending found
        exact absurd calm (Nat.not_lt.mpr late)
    | damage _ _ _ => exact calm.elim
    | operator _ _ => exact calm.elim
    | register _ => exact calm.elim

theorem calm_serves (serves : Serves start before) (calm : Calm start.flights.length before event)
    (done : environment platform before event = some after) : Serves start after := by
  have undisturbed := environment_undisturbed event done
  have drifts := environment_drifts event done
  have db := calm_db calm done
  have known : ∀ id, Known before id → Known after id := by
    intro id known
    unfold Known at known ⊢
    rw [undisturbed.issued]
    exact known
  constructor
  case files => rw [db]; exact serves.files
  case nodes => rw [db]; exact serves.nodes
  case log => rw [undisturbed.log]; exact serves.log
  case length => rw [drifts_length drifts]; exact serves.length
  case named =>
    intro flight member id named
    obtain ⟨index, inside, found⟩ := List.mem_iff_getElem.mp member
    obtain ⟨old, there, follows⟩ :=
      drifts.flights index flight (List.getElem?_eq_some_iff.mpr ⟨inside, found⟩)
    have same : flight.request = old.request := congrArg (·.2.2) follows.sent
    rw [same] at named
    exact known id (serves.named old (List.mem_of_getElem? there) id named)
  case tidy =>
    intro node id present
    by_cases before_none : before.objects node id = none
    · by_contra unknown
      apply present
      rw [calm_objects calm done, before_none]
      rintro handle flight rfl pending ⟨-, named⟩
      have found := List.mem_of_getElem? (pending_found pending).1
      exact unknown (known id (serves.named flight found id named))
    · exact known id (serves.tidy node id before_none)
  case gone =>
    intro index flight id late found deletes row member
    obtain ⟨old, there, follows⟩ := drifts.flights index flight found
    have same : flight.request = old.request := congrArg (·.2.2) follows.sent
    rw [db] at member
    exact serves.gone index old id late there (same.symm.trans deletes) row member
  case kept =>
    intro index flight late found lost
    obtain ⟨old, there, gone⟩ := calm_lost calm done late found lost
    exact serves.kept index old late there gone

end World

def reliable (platform : Platform) (start : Shared) : Layer where
  inv := Serves start
  move := fun thread _ after => thread = .worker ∧ Serves start after
  drift := fun before after => Serves start after ∧
    ∃ event, environment platform before event = some after ∧ Calm start.flights.length before event
  allowed := Promptly start.flights.length

theorem reliable_sound (platform : Platform) (start : Shared) :
    Sound platform (reliable platform start) where
  move_inv := fun _ _ _ _ _ _ move => move.2
  drift_inv := fun _ _ _ _ _ drift => drift.1
  drifts := fun _ event _ serves done calm => ⟨calm_serves serves calm done, event, done, calm⟩

/-! ### Steps of the worker -/

section Steps
variable {start before after : Shared} {thread : Tid}

theorem known_grown (life : Life thread before after) {id : Uuid} (known : Known before id) :
    Known after id := by
  obtain ⟨entry, member, rfl⟩ := List.mem_map.mp known
  exact List.mem_map_of_mem (life_issued life member)

theorem exec_carried {request : Op} {answer : Res request}
    (done : exec thread before request answer = some after) {index : Nat} {flight : Flight Tid}
    (found : after.flights[index]? = some flight) :
    (∃ old, before.flights[index]? = some old ∧ old.request = flight.request ∧
      flight.state = old.state) ∨
    (before.flights.length ≤ index ∧ flight.state = .pending ∧
      ∃ one ∈ sends request, one.2 = flight.request) := by
  rcases exec_flight done found with ⟨old, there, told⟩ | ⟨late, one, launched, rfl⟩
  · have same : flight.request = old.request := congrArg (·.2.2) told.sent
    exact Or.inl ⟨old, there, same.symm, told.state⟩
  · exact Or.inr ⟨late, rfl, one, launched, rfl⟩

theorem exec_serves {request : Op} {answer : Res request} (calm : quiet request)
    (done : exec thread before request answer = some after) (life : Life thread before after)
    (names : ∀ one ∈ sends request, ∀ id, one.2.shard = some id → Known before id)
    (deletes : ∀ one ∈ sends request, ∀ id, one.2 = .delete id →
      ∀ row ∈ before.db.shards, row.id ≠ id)
    (serves : Serves start before) : Serves start after := by
  have undisturbed := exec_quiet calm done
  have reads : commits request = [] := by
    cases request with
    | commit writes => exact calm.elim
    | _ => rfl
  have db := exec_db reads done
  constructor
  case files => rw [db]; exact serves.files
  case nodes => rw [db]; exact serves.nodes
  case log => rw [undisturbed.log]; exact serves.log
  case length =>
    have grown := congrArg List.length (exec_wire done)
    simp only [wire, List.length_map, List.length_append] at grown
    exact serves.length.trans (by omega)
  case named =>
    intro flight member id named
    obtain ⟨index, inside, found⟩ := List.mem_iff_getElem.mp member
    rcases exec_carried done (List.getElem?_eq_some_iff.mpr ⟨inside, found⟩) with
      ⟨old, there, same, -⟩ | ⟨-, -, one, launched, same⟩
    · exact known_grown life (serves.named old (List.mem_of_getElem? there) id (same ▸ named))
    · exact known_grown life (names one launched id (same ▸ named))
  case tidy =>
    intro node id present
    rw [exec_objects done] at present
    exact known_grown life (serves.tidy node id present)
  case gone =>
    intro index flight id late found delete row member
    rw [db] at member
    rcases exec_carried done found with ⟨old, there, same, -⟩ | ⟨-, -, one, launched, same⟩
    · exact serves.gone index old id late there (same.trans delete) row member
    · exact deletes one launched id (same.trans delete) row member
  case kept =>
    intro index flight late found lost
    rcases exec_carried done found with ⟨old, there, -, state⟩ | ⟨-, state, -⟩
    · exact serves.kept index old late there (state.symm.trans lost)
    · rw [state] at lost
      cases lost

theorem draw_serves {id : Uuid} (serves : Serves start before) :
    Serves start { before with issued := (thread, id) :: before.issued } where
  files := serves.files
  nodes := serves.nodes
  log := serves.log
  length := serves.length
  named := fun flight member other named =>
    List.mem_cons_of_mem _ (serves.named flight member other named)
  tidy := fun node other present => List.mem_cons_of_mem _ (serves.tidy node other present)
  gone := serves.gone
  kept := serves.kept

/-- A row is repointed to an object that nobody is about to delete. -/
theorem repoint_serves {old new node : Uuid} (life : Life thread before after)
    (done : exec thread before (.commit [.repoint old new node]) () = some after)
    (spared : ∀ flight ∈ before.flights, flight.request ≠ .delete new)
    (serves : Serves start before) : Serves start after := by
  obtain ⟨db, committed, rfl⟩ := Option.map_eq_some_iff.mp done
  obtain ⟨middle, one, last⟩ := Option.bind_eq_some_iff.mp committed
  cases last
  obtain ⟨-, same⟩ := Option.ite_none_right_eq_some.mp one
  cases same
  constructor
  case files => exact serves.files
  case nodes => exact serves.nodes
  case log => exact fun entry member => List.mem_append_left _ (serves.log entry member)
  case length => exact serves.length
  case named => exact serves.named
  case tidy => exact serves.tidy
  case gone =>
    intro index flight id late found delete row member
    obtain ⟨source, present, rfl⟩ := List.mem_map.mp member
    split
    · rintro rfl
      exact spared flight (List.mem_of_getElem? found) delete
    · exact serves.gone index flight id late found delete source present
  case kept => exact serves.kept

end Steps

section Worker
variable {platform : Platform} {start : Shared} {post : Tid → Job → Outcome → Shared → Prop}
  {ready : Op → Shared → Prop} {Out : Type} {result : Out → Shared → Prop}
  {holds : Shared → Prop} {state : Shared}

/-- A request can be answered, once the nodes have carried out what was sent. -/
def Answerable (start : Shared) (cap : Nat) : Op → Shared → Prop
  | .uuid4, shared => shared.issued.length < cap
  | .commit writes, shared => ∃ db, shared.db.commit writes = some db
  | .await handles, shared => ∀ handle ∈ handles,
      start.flights.length ≤ handle ∧ handle < shared.flights.length
  | _, _ => True

abbrev Works (platform : Platform) (start : Shared) (cap : Nat)
    (post : Tid → Job → Outcome → Shared → Prop) (result : Out → Shared → Prop) (prog : Async Out)
    (state : Shared) : Prop :=
  Sure (service platform) ((reliable platform start).contract post) .worker (Answerable start cap)
    result prog state

/-- What the world and the worker's own node calls leave alone in such runs. -/
structure Unshaken (platform : Platform) (start : Shared) (holds : Shared → Prop) : Prop where
  calm : ∀ before event after, Serves start before →
    environment platform before event = some after → Calm start.flights.length before event →
      holds before → holds after
  own : ∀ before after, after.db = before.db → after.objects = before.objects →
    after.issued = before.issued → holds before → holds after

theorem unshaken_stable (unshaken : Unshaken platform start holds) :
    Stable ((reliable platform start).contract post) .worker holds := by
  apply layer_stable
  · intro before after _ serves _ drift held
    obtain ⟨-, event, done, calm⟩ := drift
    exact unshaken.calm before event after serves done calm held
  · exact fun other before after different _ _ _ move => absurd move.1 different

theorem unshaken_and {also : Shared → Prop} (first : Unshaken platform start holds)
    (second : Unshaken platform start also) :
    Unshaken platform start fun shared => holds shared ∧ also shared :=
  ⟨fun before event after serves done calm held =>
    ⟨first.calm before event after serves done calm held.1,
      second.calm before event after serves done calm held.2⟩,
    fun before after db objects issued held =>
      ⟨first.own before after db objects issued held.1,
        second.own before after db objects issued held.2⟩⟩

theorem works_reads {cap : Nat} (request : Op) {next : Res request → Async Out}
    (reading : reads request) (unshaken : Unshaken platform start holds) (begins : holds state)
    (rest : ∀ before answer, WellFormed before → Serves start before → holds before →
      exec .worker before request answer = some before →
        Works platform start cap post result (next answer) before) :
    Works platform start cap post result ((Prog.perform request).bind next) state := by
  apply layer_sure (unshaken_stable unshaken) begins
  · intro shared _ _ _
    cases request with
    | uuid4 => exact reading.elim
    | commit writes => exact reading.elim
    | await handles => exact reading.elim
    | _ => trivial
  · intro before answer after wf serves held done _ _
    obtain rfl := exec_reads reading done
    exact ⟨⟨rfl, serves⟩, rest after answer wf serves held done⟩

theorem unshaken_quiet (unshaken : Unshaken platform start holds) {before after : Shared}
    {request : Op} {answer : Res request} (calm : quiet request)
    (done : exec .worker before request answer = some after) (held : holds before) : holds after := by
  have reads : commits request = [] := by
    cases request with
    | commit writes => exact calm.elim
    | _ => rfl
  exact unshaken.own before after (exec_db reads done) (exec_objects done)
    (exec_quiet calm done).issued held

def Awaited (handle : Nat) (requests : List (Uuid × NodeRequest))
    (right : Uuid × NodeRequest → HttpResponse → Prop) (shared : Shared) : Prop :=
  OnWire .worker handle requests shared ∧
    ∀ (index : Nat) (one : Uuid × NodeRequest) (flight : Flight Tid) (response : HttpResponse),
      requests[index]? = some one → shared.flights[handle + index]? = some flight →
        flight.state = .answered response → right one response

theorem calm_awaited {handle : Nat} {requests : List (Uuid × NodeRequest)}
    {right : Uuid × NodeRequest → HttpResponse → Prop} (late : start.flights.length ≤ handle)
    (shards : ∀ one ∈ requests, ∃ id, one.2.shard = some id)
    {before after : Shared} {event : Event} (calm : Calm start.flights.length before event)
    (done : environment platform before event = some after)
    (answers : ∀ one ∈ requests, ∀ id, one.2.shard = some id →
      right one (serve platform (before.objects one.1 id) one.2).1)
    (awaited : Awaited handle requests right before) : Awaited handle requests right after := by
  have drifts := environment_drifts event done
  refine ⟨onWire_later (drifts_lasting drifts) awaited.1, ?_⟩
  intro index one flight response asked found state
  obtain ⟨old, there, follows⟩ := drifts.flights _ flight found
  rcases follows.state with still | waiting
  · exact awaited.2 index one old response asked there (still.symm.trans state)
  · obtain ⟨-, carried | wrong⟩ := answered_now done there waiting found state
    · obtain ⟨sent_old, present, same⟩ := awaited.1 index one asked
      obtain rfl := Option.some.inj (present.symm.trans there)
      simp only [sent, Prod.mk.injEq] at same
      have node : sent_old.node = one.1 := congrArg Prod.fst same.2
      have request : sent_old.request = one.2 := congrArg Prod.snd same.2
      have member := List.mem_of_getElem? asked
      obtain ⟨id, named⟩ := shards one member
      rw [carried] at found
      have changed := execute_answer id there (by rw [request]; exact named) found
      rw [changed] at state
      cases state
      rw [node, request]
      exact answers one member id named
    · subst wrong
      exact absurd calm (Nat.not_lt.mpr (late.trans (Nat.le_add_right _ _)))

/-- Node calls that store nothing: all of them are answered, and rightly. -/
theorem works_gather {cap : Nat} {requests : List (Uuid × NodeRequest)}
    {next : List Reply → Async Out} {right : Uuid × NodeRequest → HttpResponse → Prop}
    (unshaken : Unshaken platform start holds) (begins : holds state)
    (shards : ∀ one ∈ requests, ∃ id, one.2.shard = some id)
    (names : ∀ shared, holds shared → ∀ one ∈ requests, ∀ id, one.2.shard = some id → Known shared id)
    (deletes : ∀ shared, holds shared → ∀ one ∈ requests, ∀ id, one.2 = .delete id →
      ∀ row ∈ shared.db.shards, row.id ≠ id)
    (answers : ∀ shared, holds shared → ∀ one ∈ requests, ∀ id, one.2.shard = some id →
      right one (serve platform (shared.objects one.1 id) one.2).1)
    (rest : ∀ replies later, holds later → replies.length = requests.length →
      (∀ (index : Nat) (one : Uuid × NodeRequest) (reply : Reply), requests[index]? = some one →
        replies[index]? = some reply → ∃ response, reply = some response ∧ right one response) →
      Works platform start cap post result (next replies) later) :
    Works platform start cap post result ((gather requests).bind next) state := by
  apply layer_sure (unshaken_stable unshaken) begins
  · exact fun _ _ _ _ => trivial
  intro before handles after wf serves held done life _
  obtain ⟨rfl, on⟩ := send_onWire done
  have sending := exec_serves (by trivial) done life (names before held) (deletes before held) serves
  refine ⟨⟨rfl, sending⟩, ?_⟩
  have late := serves.length
  have waits : Stable ((reliable platform start).contract post) .worker fun shared =>
      holds shared ∧ Awaited before.flights.length requests right shared := by
    apply layer_stable
    · rintro first last - servesFirst - ⟨-, event, happened, calm⟩ ⟨held, awaited⟩
      constructor
      · exact unshaken.calm first event last servesFirst happened calm held
      · exact calm_awaited late shards calm happened (answers first held) awaited
    · exact fun other _ _ different _ _ _ move => absurd move.1 different
  -- Just sent: none of them has an answer yet.
  have fresh : Awaited before.flights.length requests right after := by
    refine ⟨on, fun index one flight response asked found state => ?_⟩
    rcases exec_flight done found with ⟨old, there, told⟩ | ⟨-, launched, -, rfl⟩
    · have inside := (List.getElem?_eq_some_iff.mp there).1
      omega
    · cases state
  apply layer_sure waits ⟨unshaken_quiet unshaken (by trivial) done held, fresh⟩
  · intro shared _ serving both handle member
    obtain ⟨index, inside, rfl⟩ := List.mem_range'.mp member
    obtain ⟨flight, found, -⟩ := both.2.1 index _ (List.getElem?_eq_getElem inside)
    have known := (List.getElem?_eq_some_iff.mp found).1
    constructor <;> omega
  · intro first replies last wf serving both done life may
    have told := exec_serves (by trivial) done life (by simp [sends]) (by simp [sends]) serving
    refine ⟨⟨rfl, told⟩, ?_⟩
    have heard := await_heard late both.2.1 done
    apply rest replies last (unshaken_quiet unshaken (by trivial) done both.1) heard.length
    intro index one reply asked got
    cases reply with
    | none => exact absurd rfl (may.2 none (List.mem_of_getElem? got))
    | some response =>
        obtain ⟨flights, replied, -⟩ := Option.map_eq_some_iff.mp done
        obtain ⟨flight, found, same⟩ := both.2.1 index one asked
        have inside := (List.getElem?_eq_some_iff.mp asked).1
        have named : (List.range' before.flights.length requests.length)[index]? =
            some (before.flights.length + index) := by simp [inside]
        obtain ⟨answered, there, state⟩ :=
          (awaitReplies_heard replied).2 index _ response named got
        exact ⟨response, rfl, both.2.2 index one answered response asked there state⟩

/-! ### A new object -/

/-- Nothing on a node, on the wire or in a row has this id. -/
structure Vacant (id : Uuid) (shared : Shared) : Prop where
  objects : ∀ node, shared.objects node id = none
  flights : ∀ flight ∈ shared.flights, flight.request.shard ≠ some id
  rows : ∀ row ∈ shared.db.shards, row.id ≠ id

theorem drawn_vacant {before after : Shared} {id : Uuid} (wf : WellFormed before)
    (serves : Serves start before) (done : exec .worker before .uuid4 id = some after) :
    Vacant id after ∧ after = { before with issued := (.worker, id) :: before.issued } := by
  obtain ⟨fresh, same⟩ := Option.ite_none_right_eq_some.mp done
  cases same
  refine ⟨⟨?_, ?_, ?_⟩, rfl⟩
  · intro node
    by_contra present
    exact fresh (serves.tidy node id present)
  · intro flight member named
    exact fresh (serves.named flight member id named)
  · rintro row member rfl
    exact fresh (wf.used_issued _ (wf.shards_used row member))

theorem calm_vacant {before after : Shared} {event : Event} {id : Uuid}
    (calm : Calm start.flights.length before event)
    (done : environment platform before event = some after) (vacant : Vacant id before) :
    Vacant id after := by
  have drifts := environment_drifts event done
  constructor
  · intro node
    rw [calm_objects calm done, vacant.objects node]
    rintro handle flight rfl pending ⟨-, named⟩
    exact vacant.flights flight (List.mem_of_getElem? (pending_found pending).1) named
  · intro flight member named
    obtain ⟨index, inside, found⟩ := List.mem_iff_getElem.mp member
    obtain ⟨old, there, follows⟩ :=
      drifts.flights index flight (List.getElem?_eq_some_iff.mpr ⟨inside, found⟩)
    have same : flight.request = old.request := congrArg (·.2.2) follows.sent
    rw [same] at named
    exact vacant.flights old (List.mem_of_getElem? there) named
  · rw [calm_db calm done]
    exact vacant.rows

def Putting (index : Nat) (node id : Uuid) (block : Bytes) (platform : Platform)
    (shared : Shared) : Prop :=
  ∃ flight, shared.flights[index]? = some flight ∧ sent flight = (.worker, node, .put id block) ∧
    ((flight.state = .pending ∧ shared.objects node id = none) ∨
      (flight.state = .answered (answer 201) ∧
        shared.objects node id = some ⟨platform.sha256Hex block, block⟩))

def Only (index : Nat) (id : Uuid) (shared : Shared) : Prop :=
  (∀ (other : Nat) (flight : Flight Tid), shared.flights[other]? = some flight → other ≠ index →
    flight.request.shard ≠ some id) ∧ ∀ row ∈ shared.db.shards, row.id ≠ id

theorem calm_only {before after : Shared} {event : Event} {index : Nat} {id : Uuid}
    (calm : Calm start.flights.length before event)
    (done : environment platform before event = some after) (only : Only index id before) :
    Only index id after := by
  constructor
  · intro other flight found apart named
    obtain ⟨old, there, follows⟩ := (environment_drifts event done).flights other flight found
    have same : flight.request = old.request := congrArg (·.2.2) follows.sent
    rw [same] at named
    exact only.1 other old there apart named
  · rw [calm_db calm done]
    exact only.2

theorem calm_putting {before after : Shared} {event : Event} {index : Nat} {node id : Uuid}
    {block : Bytes} (nonempty : block ≠ []) (late : start.flights.length ≤ index)
    (calm : Calm start.flights.length before event)
    (done : environment platform before event = some after) (only : Only index id before)
    (putting : Putting index node id block platform before) :
    Putting index node id block platform after := by
  obtain ⟨old, there, carries, state⟩ := putting
  obtain ⟨flight, found, follows⟩ := drifts_kept (environment_drifts event done) there
  have request : old.request = .put id block := congrArg (·.2.2) carries
  have target : old.node = node := congrArg (·.2.1) carries
  refine ⟨flight, found, follows.sent.trans carries, ?_⟩
  -- nothing but this request touches the object
  have still : (∀ handle, event = .execute handle → handle ≠ index) →
      after.objects node id = before.objects node id := by
    intro elsewhere
    apply calm_objects calm done
    rintro handle flight rfl pending ⟨-, named⟩
    exact only.1 handle flight (pending_found pending).1 (elsewhere handle rfl) named
  rcases state with ⟨waiting, absent⟩ | ⟨answered, present⟩
  · cases now : flight.state with
    | pending =>
        refine Or.inl ⟨rfl, (still ?_).trans absent⟩
        rintro handle rfl rfl
        obtain ⟨asked, pending, rfl⟩ := Option.map_eq_some_iff.mp done
        obtain rfl := Option.some.inj ((pending_found pending).1.symm.trans there)
        have changed := execute_answer id there (by rw [request]; rfl) found
        rw [changed] at now
        cases now
    | answered response =>
        obtain ⟨-, carried | wrong⟩ := answered_now done there waiting found now
        · subst carried
          have changed := execute_answer id there (by rw [request]; rfl) found
          rw [changed] at now
          cases now
          rw [execute_objects, target, request, if_pos ⟨rfl, rfl⟩, absent]
          simp [serve, nonempty]
        · subst wrong
          exact absurd calm (Nat.not_lt.mpr late)
    | lost =>
        obtain ⟨earlier, same, lost⟩ := calm_lost calm done late found now
        obtain rfl := Option.some.inj (same.symm.trans there)
        rw [waiting] at lost
        cases lost
  · rcases follows.state with same | waiting
    · refine Or.inr ⟨same.trans answered, (still ?_).trans present⟩
      rintro handle rfl rfl
      obtain ⟨asked, pending, -⟩ := Option.map_eq_some_iff.mp done
      obtain ⟨here, waiting⟩ := pending_found pending
      obtain rfl := Option.some.inj (here.symm.trans there)
      rw [waiting] at answered
      cases answered
    · rw [waiting] at answered
      cases answered

/-- The object is stored, and nobody is about to delete it. -/
structure Stored (platform : Platform) (node id : Uuid) (block : Bytes) (shared : Shared) :
    Prop where
  held : shared.objects node id = some ⟨platform.sha256Hex block, block⟩
  spared : ∀ flight ∈ shared.flights, flight.request ≠ .delete id
  rows : ∀ row ∈ shared.db.shards, row.id ≠ id

theorem calm_stored {before after : Shared} {event : Event} {node id : Uuid} {block : Bytes}
    (calm : Calm start.flights.length before event)
    (done : environment platform before event = some after)
    (stored : Stored platform node id block before) : Stored platform node id block after := by
  constructor
  · apply object_kept done stored.held
    · rintro entry rfl
      exact calm.elim
    · exact fun flight member _ _ => stored.spared flight member
  · intro flight member delete
    obtain ⟨index, inside, found⟩ := List.mem_iff_getElem.mp member
    obtain ⟨old, there, follows⟩ := (environment_drifts event done).flights index flight
      (List.getElem?_eq_some_iff.mpr ⟨inside, found⟩)
    have same : flight.request = old.request := congrArg (·.2.2) follows.sent
    exact stored.spared old (List.mem_of_getElem? there) (same.symm.trans delete)
  · rw [calm_db calm done]
    exact stored.rows

theorem works_uuid4 {cap : Nat} {next : Uuid → Async Out}
    (unshaken : Unshaken platform start holds) (begins : holds state)
    (left : ∀ shared, holds shared → shared.issued.length < cap)
    (rest : ∀ before id after, WellFormed before → Serves start before → holds before →
      Vacant id after → after = { before with issued := (.worker, id) :: before.issued } →
        Works platform start cap post result (next id) after) :
    Works platform start cap post result (uuid4.bind next) state := by
  apply layer_sure (unshaken_stable unshaken) begins
  · exact fun shared _ _ held => left shared held
  · intro before id after wf serves held done _ _
    obtain ⟨vacant, rfl⟩ := drawn_vacant wf serves done
    exact ⟨⟨rfl, draw_serves serves⟩, rest before id _ wf serves held vacant rfl⟩

/-- From the send on, the only flight that names the id is this one. -/
theorem put_sent {before after : Shared} {node id : Uuid} {block : Bytes} {handles : List Nat}
    (vacant : Vacant id before)
    (done : exec .worker before (.send [(node, .put id block)]) handles = some after) :
    Only before.flights.length id after ∧
      Putting before.flights.length node id block platform after := by
  obtain ⟨-, on⟩ := send_onWire done
  constructor
  · constructor
    · intro other flight found apart named
      rcases exec_carried done found with ⟨old, there, same, -⟩ | ⟨beyond, -, -⟩
      · exact vacant.flights old (List.mem_of_getElem? there) (same ▸ named)
      · have inside := (List.getElem?_eq_some_iff.mp found).1
        have grown := congrArg List.length (exec_wire done)
        simp only [wire, List.length_map, List.length_append, sends, List.length_singleton] at grown
        omega
    · rw [exec_db rfl done]
      exact vacant.rows
  · obtain ⟨flight, found, carries⟩ := on 0 _ rfl
    refine ⟨flight, found, carries, Or.inl ⟨?_, ?_⟩⟩
    · rcases exec_carried done found with ⟨old, there, -⟩ | ⟨-, pending, -⟩
      · have inside := (List.getElem?_eq_some_iff.mp there).1
        omega
      · exact pending
    · rw [exec_objects done]
      exact vacant.objects node

/-- The reply is the node's own, and the object is there. -/
theorem put_heard {before after : Shared} {handle : Nat} {node id : Uuid} {block : Bytes}
    {replies : List Reply} (done : exec .worker before (.await [handle]) replies = some after)
    (answered : none ∉ replies) (only : Only handle id before)
    (putting : Putting handle node id block platform before) :
    replies = [some (answer 201)] ∧ Stored platform node id block after := by
  obtain ⟨flight, found, carries, outcome⟩ := putting
  have objects := exec_objects done
  obtain ⟨flights, replied, rfl⟩ := Option.map_eq_some_iff.mp done
  obtain ⟨reply, asked, rfl, there, tells, rfl⟩ := awaitReplies_one replied
  obtain rfl := Option.some.inj (there.symm.trans found)
  cases reply with
  | none => exact absurd List.mem_cons_self answered
  | some response =>
      have state : asked.state = .answered response := by simpa [Flight.mayReply] using tells
      rcases outcome with ⟨pending, -⟩ | ⟨finished, stored⟩
      · rw [pending] at state
        cases state
      · rw [finished] at state
        cases state
        refine ⟨rfl, objects ▸ stored, ?_, only.2⟩
        intro flight member delete
        obtain ⟨index, inside, at_index⟩ := List.mem_iff_getElem.mp member
        rcases exec_carried done (List.getElem?_eq_some_iff.mpr ⟨inside, at_index⟩) with
          ⟨old, earlier, same, -⟩ | ⟨-, -, one, launched, -⟩
        · by_cases here : index = handle
          · subst here
            obtain rfl := Option.some.inj (earlier.symm.trans there)
            have request : old.request = .put id block := congrArg (·.2.2) carries
            rw [← same, request] at delete
            cases delete
          · apply only.1 index old earlier here
            rw [same, delete]
            rfl
        · cases launched

/-- A PUT under an id that nothing has: it succeeds. -/
theorem works_put {cap : Nat} {node id : Uuid} {block : Bytes} {next : Reply → Async Out}
    (unshaken : Unshaken platform start holds) (begins : holds state)
    (known : ∀ shared, holds shared → Known shared id) (nonempty : block ≠ [])
    (vacant : Vacant id state)
    (rest : ∀ reply later, succeeded (putShard reply) = true → holds later →
      Stored platform node id block later → Works platform start cap post result (next reply) later) :
    Works platform start cap post result ((call node (.put id block)).bind next) state := by
  -- Until the request is out, nobody has heard of the id.
  have free : Stable ((reliable platform start).contract post) .worker fun shared =>
      holds shared ∧ Vacant id shared := by
    apply layer_stable
    · rintro before after - serves - ⟨-, event, done, calm⟩ ⟨held, vacant⟩
      exact ⟨unshaken.calm before event after serves done calm held, calm_vacant calm done vacant⟩
    · exact fun other _ _ different _ _ _ move => absurd move.1 different
  apply layer_sure free ⟨begins, vacant⟩
  · exact fun _ _ _ _ => trivial
  intro before handles after wf serves both done life _
  obtain ⟨held, vacant⟩ := both
  obtain ⟨only, putting⟩ := @put_sent platform _ _ _ _ _ _ vacant done
  obtain ⟨rfl, -⟩ := send_onWire done
  have sending : Serves start after := by
    apply exec_serves (by trivial) done life ?_ ?_ serves
    · rintro one member other named
      rw [List.mem_singleton.mp member] at named
      cases named
      exact known before held
    · rintro one member other delete
      rw [List.mem_singleton.mp member] at delete
      cases delete
  refine ⟨⟨rfl, sending⟩, ?_⟩
  have late := serves.length
  have waits : Stable ((reliable platform start).contract post) .worker fun shared =>
      holds shared ∧ Only before.flights.length id shared ∧
        Putting before.flights.length node id block platform shared := by
    apply layer_stable
    · rintro first last - servesFirst - ⟨-, event, happened, calm⟩ ⟨held, only, putting⟩
      exact ⟨unshaken.calm first event last servesFirst happened calm held,
        calm_only calm happened only, calm_putting nonempty late calm happened only putting⟩
    · exact fun other _ _ different _ _ _ move => absurd move.1 different
  apply layer_sure waits ⟨unshaken_quiet unshaken (by trivial) done held, only, putting⟩
  · rintro shared - - ⟨-, -, flight, found, -⟩ handle member
    obtain rfl := List.mem_singleton.mp member
    exact ⟨late, (List.getElem?_eq_some_iff.mp found).1⟩
  intro first replies last wf serving all done life may
  obtain ⟨held, only, putting⟩ := all
  have told := exec_serves (by trivial) done life (by simp [sends]) (by simp [sends]) serving
  -- No flight is lost here, so all that is waited for is answered.
  have answered : none ∉ replies := fun member => may.2 none member rfl
  obtain ⟨rfl, stored⟩ := put_heard done answered only putting
  refine ⟨⟨rfl, told⟩, ?_⟩
  exact rest (some (answer 201)) last rfl (unshaken_quiet unshaken (by trivial) done held) stored

end Worker

section Runs
variable {platform : Platform} {start : Shared} {post : Tid → Job → Outcome → Shared → Prop}

def Answered (shared : Shared) (handle : Nat) : Prop :=
  ∃ flight response, shared.flights[handle]? = some flight ∧ flight.state = .answered response

theorem answered_later {before after : Shared} (drifts : Drifts before after) {handle : Nat}
    (answered : Answered before handle) : Answered after handle := by
  obtain ⟨old, response, there, state⟩ := answered
  obtain ⟨flight, found, follows⟩ := drifts_kept drifts there
  refine ⟨flight, response, found, ?_⟩
  rcases follows.state with same | waiting
  · exact same.trans state
  · rw [waiting] at state
    cases state

theorem execute_answered {shared : Shared} {handle : Nat} {flight : Flight Tid}
    (found : shared.flights[handle]? = some flight) :
    Answered (shared.execute platform handle flight) handle := by
  have inside := (List.getElem?_eq_some_iff.mp found).1
  unfold Shared.execute
  split
  · exact ⟨_, _, List.getElem?_set_self inside, rfl⟩
  · exact ⟨_, _, List.getElem?_set_self inside, rfl⟩

/-- The nodes carry out what they have been sent since. -/
theorem run_answered (handles : List Nat) {config : ServiceConfig}
    (wf : WellFormed config.shared) (serves : Serves start config.shared)
    (sent : ∀ handle ∈ handles,
      start.flights.length ≤ handle ∧ handle < config.shared.flights.length) :
    ∃ more middle, Run (Allowed (service platform) ((reliable platform start).contract post))
        config more middle ∧ middle.threads = config.threads ∧ WellFormed middle.shared ∧
      Serves start middle.shared ∧ middle.shared.flights.length = config.shared.flights.length ∧
      ∀ handle ∈ handles, Answered middle.shared handle := by
  induction handles with
  | nil => exact ⟨[], config, .refl, rfl, wf, serves, rfl, by simp⟩
  | cons handle rest ih =>
      obtain ⟨more, middle, run, threads, wf, serves, length, answered⟩ :=
        ih fun other member => sent other (List.mem_cons_of_mem _ member)
      obtain ⟨late, inside⟩ := sent handle List.mem_cons_self
      obtain ⟨flight, found⟩ : ∃ flight, middle.shared.flights[handle]? = some flight :=
        ⟨_, List.getElem?_eq_getElem (length ▸ inside)⟩
      cases state : flight.state with
      | pending =>
          have pending : middle.shared.pending handle = some flight := by
            rw [Shared.pending, found]
            exact if_pos state
          have done : environment platform middle.shared (.execute handle) =
              some (middle.shared.execute platform handle flight) := by
            rw [environment, pending]
            rfl
          have calm : Calm start.flights.length middle.shared (.execute handle) :=
            fun early => absurd early (Nat.not_lt.mpr late)
          have drifts := environment_drifts _ done
          have taken : Allowed (service platform) ((reliable platform start).contract post) middle
              (.env (.execute handle))
              { middle with shared := middle.shared.execute platform handle flight } :=
            ⟨Step.env done, trivial, calm⟩
          refine ⟨_, _, .next run taken, threads, ?_, ?_, ?_, ?_⟩
          · exact undisturbed_wellFormed (environment_undisturbed _ done) wf
          · exact calm_serves serves calm done
          · exact (drifts_length drifts).trans length
          · intro other member
            rcases List.mem_cons.mp member with rfl | earlier
            · exact execute_answered found
            · exact answered_later drifts (answered other earlier)
      | answered response =>
          refine ⟨more, middle, run, threads, wf, serves, length, fun other member => ?_⟩
          rcases List.mem_cons.mp member with rfl | earlier
          · exact ⟨flight, response, found, state⟩
          · exact answered other earlier
      | lost => exact absurd state (serves.kept handle flight late found)

theorem awaitReplies_answered {flights : List (Flight Tid)} {handles : List Nat}
    (answered : ∀ handle ∈ handles, ∃ flight response, flights[handle]? = some flight ∧
      flight.state = .answered response) :
    ∃ replies after, awaitReplies flights handles replies = some after ∧
      ∀ reply : Reply, reply ∈ replies → reply ≠ none := by
  induction handles generalizing flights with
  | nil => exact ⟨[], flights, rfl, by simp⟩
  | cons handle rest ih =>
      obtain ⟨flight, response, found, state⟩ := answered handle List.mem_cons_self
      have inside := (List.getElem?_eq_some_iff.mp found).1
      obtain ⟨replies, after, told, real⟩ := @ih
          (flights.set handle { flight with reply := some (some response) }) <| by
        intro other member
        obtain ⟨old, answer, there, same⟩ := answered other (List.mem_cons_of_mem _ member)
        by_cases here : other = handle
        · subst here
          exact ⟨_, response, List.getElem?_set_self inside, state⟩
        · refine ⟨old, answer, ?_, same⟩
          rw [List.getElem?_set_ne (Ne.symm here)]
          exact there
      refine ⟨some response :: replies, after, ?_, ?_⟩
      · have may : flight.mayReply (some response) = true := by simp [Flight.mayReply, state]
        simp only [awaitReplies, found, may, if_true]
        exact told
      · intro reply member
        rcases List.mem_cons.mp member with rfl | later
        · exact Option.some_ne_none response
        · exact real reply later

theorem unused_id (ids : List Uuid) (short : ids.length < 2 ^ 128) : ∃ id, id ∉ ids := by
  by_contra none
  push Not at none
  have covers : Finset.range (2 ^ 128) ⊆ (ids.map BitVec.toNat).toFinset := by
    intro value inside
    have drawn := none (BitVec.ofNat 128 value)
    rw [List.mem_toFinset, List.mem_map]
    exact ⟨_, drawn, by rw [BitVec.toNat_ofNat, Nat.mod_eq_of_lt (Finset.mem_range.mp inside)]⟩
  have count := (Finset.card_le_card covers).trans (List.toFinset_card_le _)
  rw [Finset.card_range, List.length_map] at count
  exact Nat.not_lt.mpr count short

/-- What is ready can be answered. -/
theorem reliable_answers {cap clock : Nat} (enough : cap ≤ 2 ^ 128)
    {earlier labels : List ServiceLabel} {before config : ServiceConfig} {job : Job} {request : Op}
    {next : Res request → Async Outcome}
    (reached : Run (Step (service platform)) (deployed clock) earlier before)
    (run : Run (Allowed (service platform) ((reliable platform start).contract post)) before labels
      config)
    (inv : ((reliable platform start).contract post).inv config.shared)
    (running : config.threads .worker = .running job (.op request next))
    (ready : Answerable start cap request config.shared) : ∃ more middle answer last,
      Run (Allowed (service platform) ((reliable platform start).contract post)) config more middle ∧
      Allowed (service platform) ((reliable platform start).contract post) middle
        (.act .worker request answer) last ∧
      last.threads .worker = .running job (next answer) := by
  have whole := run_append reached (guarded_run run)
  -- the request is answered where the pool already is
  have here : ∀ {answer after}, exec .worker config.shared request answer = some after →
      Promptly start.flights.length config.shared (.act .worker request answer) →
      ∃ more middle answer last,
        Run (Allowed (service platform) ((reliable platform start).contract post)) config more
          middle ∧
        Allowed (service platform) ((reliable platform start).contract post) middle
          (.act .worker request answer) last ∧
        last.threads .worker = .running job (next answer) := by
    intro answer after done may
    exact ⟨[], config, answer, _, .refl, layer_act whole running done may,
      threads_set config .worker .worker _⟩
  cases request with
  | now => exact @here config.shared.clock config.shared (if_pos rfl) rfl
  | uuid4 =>
      have short : config.shared.issued.length < cap := ready
      obtain ⟨id, fresh⟩ := unused_id (config.shared.issued.map (·.2)) <| by
        rw [List.length_map]
        exact short.trans_le enough
      exact here (if_pos fresh) rfl
  | shuffle nodes => exact @here nodes config.shared (if_pos (List.Perm.refl _)) rfl
  | selectFiles condition => exact here (if_pos (List.Perm.refl _)) rfl
  | selectPlaced condition => exact here (if_pos (List.Perm.refl _)) rfl
  | selectNodes condition => exact here (if_pos (List.Perm.refl _)) rfl
  | commit writes =>
      obtain ⟨db, committed⟩ := ready
      exact @here () _ (Option.map_eq_some_iff.mpr ⟨db, committed, rfl⟩) rfl
  | send requests => exact here (if_pos rfl) rfl
  | await handles =>
      obtain ⟨more, middle, further, threads, wf, serves, -, answered⟩ :=
        run_answered handles inv.1 inv.2 ready
      obtain ⟨replies, flights, told, real⟩ := awaitReplies_answered answered
      have there : middle.threads .worker = .running job (.op (.await handles) next) := by
        rw [threads]
        exact running
      have told' : exec .worker middle.shared (.await handles) replies =
          some { middle.shared with flights := flights } :=
        Option.map_eq_some_iff.mpr ⟨flights, told, rfl⟩
      exact ⟨more, middle, replies, _, further,
        layer_act (run_append whole (guarded_run further)) there told' ⟨rfl, real⟩,
        threads_set middle .worker .worker _⟩

end Runs

/-! ### A job of the worker -/

/-- A state the service can be in, where the worker takes the job on. -/
structure Alone (platform : Platform) (job : Job) (before begun : ServiceConfig) : Prop where
  reached : ∃ clock labels, Run (Step (service platform)) (deployed clock) labels before
  tidy : Tidy before.shared
  started : Step (service platform) before (.start .worker job) begun

section Job
variable {platform : Platform} {job : Job} {before begun config : ServiceConfig}
  {labels : List ServiceLabel} {post : Tid → Job → Outcome → Shared → Prop} {cap : Nat}

theorem alone_begun (alone : Alone platform job before begun) : begun.shared = before.shared ∧
    begun.threads .worker = .running job (program platform job) := by
  cases alone.started
  exact ⟨rfl, (threads_set before .worker .worker _).trans (if_pos rfl)⟩

theorem alone_serves (alone : Alone platform job before begun) :
    Serves before.shared before.shared := by
  obtain ⟨clock, labels, reached⟩ := alone.reached
  constructor
  case files => rfl
  case nodes => rfl
  case log => exact fun _ member => member
  case length => exact Nat.le_refl _
  case named => exact (run_recorded reached).named
  case tidy => exact alone.tidy
  case gone =>
    intro index flight id late found
    rw [List.getElem?_eq_none late] at found
    cases found
  case kept =>
    intro index flight late found
    rw [List.getElem?_eq_none late] at found
    cases found

theorem alone_moving (alone : Alone platform job before begun)
    (others : ∀ thread job out later, thread ≠ .worker → post thread job out later)
    (sure : Works platform before.shared cap post (post .worker job) (program platform job)
      before.shared) :
    Moving (service platform) ((reliable platform before.shared).contract post) .worker
      (Answerable before.shared cap) begun := by
  obtain ⟨shared, running⟩ := alone_begun alone
  obtain ⟨clock, labels, reached⟩ := alone.reached
  have wf := (service_safe reached).inv
  have serves := alone_serves alone
  refine ⟨⟨?_, fun thread other rest at_rest => ?_⟩, fun other rest at_rest => ?_⟩
  · rw [shared]
    exact ⟨wf, serves⟩
  · by_cases mine : thread = .worker
    · subst mine
      rw [running] at at_rest
      cases at_rest
      rw [shared]
      exact sure.safe
    · apply layer_idle
      · intro later request answer may
        cases request with
        | await handles => exact mine may.1
        | _ => exact mine may
      · exact fun out later => others thread other out later mine
  · rw [running] at at_rest
    cases at_rest
    rw [shared]
    exact sure.able

theorem alone_running (alone : Alone platform job before begun)
    (run : Run (Guarded (fun config label =>
      Promptly before.shared.flights.length config.shared label) (Step (service platform))) begun
      labels config) :
    (∃ out, .finish .worker job out ∈ labels) ∨
      ∃ rest, config.threads .worker = .running job rest := by
  induction run with
  | refl => exact Or.inr ⟨_, (alone_begun alone).2⟩
  | next ran taken ih =>
      rcases ih with ⟨out, member⟩ | ⟨rest, running⟩
      · exact Or.inl ⟨out, List.mem_append_left _ member⟩
      · obtain ⟨step, may⟩ := taken
        cases step with
        | start _ _ => exact may.elim
        | fail _ => exact may.elim
        | env _ => exact Or.inr ⟨rest, running⟩
        | @act thread other request next answer shared at_op done =>
            right
            change ∃ rest, (Config.set _ thread _).threads .worker = _
            by_cases mine : Tid.worker = thread
            · subst mine
              rw [running] at at_op
              cases at_op
              exact ⟨_, (threads_set _ _ _ _).trans (if_pos rfl)⟩
            · exact ⟨rest, ((threads_set _ _ _ _).trans (if_neg mine)).trans running⟩
        | @finish thread other out at_ret =>
            by_cases mine : Tid.worker = thread
            · subst mine
              rw [running] at at_ret
              cases at_ret
              exact Or.inl ⟨out, List.mem_append_right _ (List.mem_singleton.mpr rfl)⟩
            · exact Or.inr ⟨rest, ((threads_set _ _ _ _).trans (if_neg mine)).trans running⟩

theorem alone_quiet (thread : Tid) (job : Job) (state : Shared) :
    ¬ ((reliable platform before.shared).contract post).allowed state (.start thread job) :=
  fun may => may.2

/-- What the job has promised holds where it ends. -/
theorem alone_ends (alone : Alone platform job before begun)
    (moving : Moving (service platform) ((reliable platform before.shared).contract post) .worker
      (Answerable before.shared cap) begun)
    (run : Run (Guarded (fun config label =>
      Promptly before.shared.flights.length config.shared label) (Step (service platform))) begun
      labels config) {out : Outcome} {last : ServiceConfig}
    (finish : Step (service platform) config (.finish .worker job out) last) :
    last.shared = config.shared ∧ WellFormed config.shared ∧
      Serves before.shared config.shared ∧ post .worker job out config.shared := by
  obtain ⟨clock, earlier, reached⟩ := alone.reached
  have now := run_moving (layer_composes (reliable_sound platform before.shared)) alone_quiet moving
    (layer_contract (.next reached alone.started) run)
  cases finish with
  | finish at_ret =>
      exact ⟨rfl, now.safe.inv.1, now.safe.inv.2,
        now.safe.threads .worker _ _ at_ret config.shared .refl now.safe.inv⟩

/-- The job has ended, or its next steps can be taken until it has. -/
theorem alone_returns (alone : Alone platform job before begun)
    (moving : Moving (service platform) ((reliable platform before.shared).contract post) .worker
      (Answerable before.shared cap) begun) (enough : cap ≤ 2 ^ 128)
    (run : Run (Guarded (fun config label =>
      Promptly before.shared.flights.length config.shared label) (Step (service platform))) begun
      labels config) :
    (∃ out, .finish .worker job out ∈ labels) ∨ ∃ more last out done,
      Run (Guarded (fun config label => Promptly before.shared.flights.length config.shared label)
        (Step (service platform))) config more last ∧
      Step (service platform) last (.finish .worker job out) done := by
  obtain ⟨clock, earlier, reached⟩ := alone.reached
  have start := Run.next reached alone.started
  rcases alone_running alone run with finished | ⟨rest, running⟩
  · exact Or.inl finished
  · right
    obtain ⟨more, last, out, further, at_ret⟩ := run_returns
      (layer_composes (reliable_sound platform before.shared)) alone_quiet
      (fun labels config request next ran inv at_op ready =>
        reliable_answers enough start ran inv at_op ready) moving (layer_contract start run) running
    exact ⟨more, last, out, _, run_mono (fun _ _ _ taken => ⟨taken.1, taken.2.2⟩) further,
      .finish at_ret⟩

end Job

end SecureFileSystem.Reliable
