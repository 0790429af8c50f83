import SecureFileSystem.Session

/-!
The requests on the wire only ever grow: a flight's outcome changes, never what
was sent, by whom or to whom.
-/

namespace SecureFileSystem.Wire

open Base Database Fleet Session

def sent (flight : Flight Tid) : Tid × Uuid × NodeRequest :=
  (flight.sender, flight.node, flight.request)

def wire (shared : Shared) : List (Tid × Uuid × NodeRequest) := shared.flights.map sent

theorem wire_set {flights : List (Flight Tid)} {handle : Nat} {flight other : Flight Tid}
    (found : flights[handle]? = some flight) (same : sent other = sent flight) :
    (flights.set handle other).map sent = flights.map sent := by
  apply List.ext_getElem?
  intro index
  rw [List.getElem?_map, List.getElem?_set, List.getElem?_map]
  split
  · rename_i here
    subst here
    rw [found]
    split
    · exact congrArg some same
    · rename_i outside
      rw [List.getElem?_eq_none (Nat.not_lt.mp outside)] at found
      cases found
  · rfl

theorem settle_wire {shared : Shared} {handle : Nat} {flight : Flight Tid} (state : FlightState)
    (found : shared.flights[handle]? = some flight) :
    wire (shared.settle handle flight state) = wire shared :=
  wire_set found rfl

theorem pending_found {shared : Shared} {handle : Nat} {flight : Flight Tid}
    (pending : shared.pending handle = some flight) :
    shared.flights[handle]? = some flight ∧ flight.state = .pending := by
  unfold Shared.pending at pending
  split at pending
  · rename_i other found
    obtain ⟨state, same⟩ := Option.ite_none_right_eq_some.mp pending
    cases same
    exact ⟨found, state⟩
  · cases pending

theorem environment_wire {platform : Platform} {before after : Shared} (event : Event)
    (done : environment platform before event = some after) : wire after = wire before := by
  cases event with
  | execute handle =>
      obtain ⟨flight, pending, rfl⟩ := Option.map_eq_some_iff.mp done
      unfold Shared.execute
      split <;> exact wire_set (pending_found pending).1 rfl
  | lose handle =>
      obtain ⟨flight, pending, rfl⟩ := Option.map_eq_some_iff.mp done
      exact settle_wire .lost (pending_found pending).1
  | misreply handle response =>
      obtain ⟨flight, pending, rfl⟩ := Option.map_eq_some_iff.mp done
      exact settle_wire (.answered response) (pending_found pending).1
  | register node =>
      obtain ⟨-, same⟩ := Option.ite_none_right_eq_some.mp done
      cases same
      rfl
  | tick _ => cases done; rfl
  | damage _ _ _ => cases done; rfl
  | operator _ _ => cases done; rfl

theorem awaitReplies_wire {flights after : List (Flight Tid)} {handles : List Nat}
    {replies : List Reply} (done : awaitReplies flights handles replies = some after) :
    after.map sent = flights.map sent := by
  induction handles generalizing flights replies with
  | nil =>
      cases replies with
      | nil => cases done; rfl
      | cons reply rest => cases done
  | cons handle rest ih =>
      cases replies with
      | nil => cases done
      | cons reply others =>
          simp only [awaitReplies] at done
          split at done
          · rename_i flight found
            obtain ⟨-, further⟩ := Option.ite_none_right_eq_some.mp done
            exact (ih further).trans (wire_set found rfl)
          · cases done

theorem launch_sent (sender : Tid) (requests : List (Uuid × NodeRequest)) :
    (launch sender requests).map sent = requests.map fun request => (sender, request) := by
  simp [launch, sent, Function.comp_def]

def sends : Op → List (Uuid × NodeRequest)
  | .send requests => requests
  | _ => []

theorem exec_wire {thread : Tid} {before after : Shared} {request : Op} {answer : Res request}
    (done : exec thread before request answer = some after) :
    wire after = wire before ++ (sends request).map fun request => (thread, request) := by
  have guarded : ∀ (condition : Prop) [Decidable condition] (next : Shared),
      (if condition then some next else none) = some after → after = next := by
    intro condition _ next passed
    obtain ⟨-, same⟩ := Option.ite_none_right_eq_some.mp passed
    exact (Option.some.inj same).symm
  have still : after.flights = before.flights → wire after = wire before ++ [] := by
    intro same
    rw [wire, same, List.append_nil, wire]
  cases request with
  | send requests =>
      rw [guarded _ _ done]
      change (before.flights ++ launch thread requests).map sent = _
      rw [List.map_append, launch_sent]
      rfl
  | await handles =>
      obtain ⟨flights, replied, rfl⟩ := Option.map_eq_some_iff.mp done
      change flights.map sent = wire before ++ []
      rw [awaitReplies_wire replied, List.append_nil, wire]
  | commit writes =>
      obtain ⟨db, -, rfl⟩ := Option.map_eq_some_iff.mp done
      exact still rfl
  | uuid4 =>
      rw [guarded _ _ done]
      exact (List.append_nil _).symm
  | _ => exact still (congrArg Shared.flights (guarded _ _ done))

structure Follows (old flight : Flight Tid) : Prop where
  sent : sent flight = sent old
  reply : flight.reply = old.reply
  state : flight.state = old.state ∨ old.state = .pending

theorem follows_refl (flight : Flight Tid) : Follows flight flight := ⟨rfl, rfl, Or.inl rfl⟩

theorem set_flight {flights : List (Flight Tid)} {handle index : Nat} {old flight : Flight Tid}
    (replacement : Flight Tid) (found : flights[handle]? = some old)
    (inside : (flights.set handle replacement)[index]? = some flight) :
    flights[index]? = some flight ∨ (index = handle ∧ flights[index]? = some old ∧
      flight = replacement) := by
  rw [List.getElem?_set] at inside
  split at inside
  · rename_i here
    subst here
    obtain ⟨-, same⟩ := Option.ite_none_right_eq_some.mp inside
    exact Or.inr ⟨rfl, found, (Option.some.inj same).symm⟩
  · exact Or.inl inside

theorem environment_flight {platform : Platform} {before after : Shared} (event : Event)
    (done : environment platform before event = some after) {index : Nat} {flight : Flight Tid}
    (found : after.flights[index]? = some flight) :
    ∃ old, before.flights[index]? = some old ∧ Follows old flight := by
  have settled : ∀ {handle old} (state : FlightState), before.pending handle = some old →
      (before.flights.set handle { old with state := state })[index]? = some flight →
      ∃ old, before.flights[index]? = some old ∧ Follows old flight := by
    intro handle old state pending inside
    obtain ⟨present, waiting⟩ := pending_found pending
    rcases set_flight _ present inside with kept | ⟨-, same, rfl⟩
    · exact ⟨flight, kept, follows_refl flight⟩
    · exact ⟨old, same, rfl, rfl, Or.inr waiting⟩
  cases event with
  | execute handle =>
      obtain ⟨old, pending, rfl⟩ := Option.map_eq_some_iff.mp done
      unfold Shared.execute at found
      split at found <;> exact settled _ pending found
  | lose handle =>
      obtain ⟨old, pending, rfl⟩ := Option.map_eq_some_iff.mp done
      exact settled _ pending found
  | misreply handle response =>
      obtain ⟨old, pending, rfl⟩ := Option.map_eq_some_iff.mp done
      exact settled _ pending found
  | register node =>
      obtain ⟨-, same⟩ := Option.ite_none_right_eq_some.mp done
      cases same
      exact ⟨flight, found, follows_refl flight⟩
  | tick _ => cases done; exact ⟨flight, found, follows_refl flight⟩
  | damage _ _ _ => cases done; exact ⟨flight, found, follows_refl flight⟩
  | operator _ _ => cases done; exact ⟨flight, found, follows_refl flight⟩

/-- What the world does to the flights: answers come in, and nothing is sent. -/
structure Drifts (before after : Shared) : Prop where
  wire : wire after = wire before
  flights : ∀ (index : Nat) (flight : Flight Tid), after.flights[index]? = some flight →
    ∃ old, before.flights[index]? = some old ∧ Follows old flight

theorem environment_drifts {platform : Platform} {before after : Shared} (event : Event)
    (done : environment platform before event = some after) : Drifts before after :=
  ⟨environment_wire event done, fun _ _ found => environment_flight event done found⟩

theorem drifts_length {before after : Shared} (drifts : Drifts before after) :
    after.flights.length = before.flights.length := by
  simpa [wire] using congrArg List.length drifts.wire

def awaited : Op → List Nat
  | .await handles => handles
  | _ => []

structure Told (handles : List Nat) (index : Nat) (old flight : Flight Tid) : Prop where
  sent : sent flight = sent old
  state : flight.state = old.state
  reply : index ∉ handles → flight.reply = old.reply

theorem awaitReplies_flight {flights after : List (Flight Tid)} {handles : List Nat}
    {replies : List Reply} (done : awaitReplies flights handles replies = some after) {index : Nat}
    {flight : Flight Tid} (found : after[index]? = some flight) :
    ∃ old, flights[index]? = some old ∧ Told handles index old flight := by
  induction handles generalizing flights replies with
  | nil =>
      cases replies with
      | nil => cases done; exact ⟨flight, found, rfl, rfl, fun _ => rfl⟩
      | cons reply rest => cases done
  | cons handle rest ih =>
      cases replies with
      | nil => cases done
      | cons reply others =>
          simp only [awaitReplies] at done
          split at done
          · rename_i told present
            obtain ⟨-, further⟩ := Option.ite_none_right_eq_some.mp done
            obtain ⟨middle, inside, sent, state, kept⟩ := ih further
            rcases set_flight _ present inside with same | ⟨rfl, same, rfl⟩
            · exact ⟨middle, same, sent, state,
                fun outside => kept fun member => outside (List.mem_cons_of_mem _ member)⟩
            · exact ⟨told, same, sent, state, fun outside => absurd List.mem_cons_self outside⟩
          · cases done

/-- What a client is told is what the node has answered, unless it gives up. -/
theorem awaitReplies_heard {flights after : List (Flight Tid)} {handles : List Nat}
    {replies : List Reply} (done : awaitReplies flights handles replies = some after) :
    replies.length = handles.length ∧ ∀ (index handle : Nat) (response : HttpResponse),
      handles[index]? = some handle → replies[index]? = some (some response) →
        ∃ flight, flights[handle]? = some flight ∧ flight.state = .answered response := by
  induction handles generalizing flights replies with
  | nil =>
      cases replies with
      | nil => exact ⟨rfl, by simp⟩
      | cons reply rest => cases done
  | cons handle rest ih =>
      cases replies with
      | nil => cases done
      | cons reply others =>
          simp only [awaitReplies] at done
          split at done
          · rename_i told present
            obtain ⟨may, further⟩ := Option.ite_none_right_eq_some.mp done
            obtain ⟨count, heard⟩ := ih further
            refine ⟨by simp [count], fun index asked response here answer => ?_⟩
            cases index with
            | zero =>
                cases here
                cases answer
                exact ⟨told, present, of_decide_eq_true may⟩
            | succ index =>
                obtain ⟨flight, found, state⟩ := heard index asked response here answer
                rcases set_flight _ present found with same | ⟨rfl, same, rfl⟩
                · exact ⟨flight, same, state⟩
                · exact ⟨told, same, state⟩
          · cases done

theorem awaitReplies_one {flights after : List (Flight Tid)} {handle : Nat} {replies : List Reply}
    (done : awaitReplies flights [handle] replies = some after) :
    ∃ reply flight, replies = [reply] ∧ flights[handle]? = some flight ∧
      flight.mayReply reply = true ∧
      after = flights.set handle { flight with reply := some reply } := by
  match replies with
  | [] => cases done
  | [reply] =>
      simp only [awaitReplies] at done
      split at done
      · rename_i flight found
        obtain ⟨told, same⟩ := Option.ite_none_right_eq_some.mp done
        exact ⟨reply, flight, rfl, found, told, (Option.some.inj same).symm⟩
      · cases done
  | _ :: _ :: _ =>
      simp only [awaitReplies] at done
      split at done
      · obtain ⟨-, same⟩ := Option.ite_none_right_eq_some.mp done
        cases same
      · cases done

theorem succeeded_put {reply : Reply} :
    succeeded (putShard reply) = true ↔ ∃ response, reply = some response ∧ response.status = 201 := by
  cases reply with
  | none => simp [putShard, succeeded]
  | some response =>
      by_cases created : response.status = 201 <;> simp [putShard, succeeded, created]

/-- A flight after a step of a thread is an earlier one, or has just been launched. -/
theorem exec_flight {thread : Tid} {before after : Shared} {request : Op} {answer : Res request}
    (done : exec thread before request answer = some after) {index : Nat} {flight : Flight Tid}
    (found : after.flights[index]? = some flight) :
    (∃ old, before.flights[index]? = some old ∧ Told (awaited request) index old flight) ∨
      (before.flights.length ≤ index ∧ ∃ one ∈ sends request,
        flight = ⟨thread, one.1, one.2, .pending, none⟩) := by
  have still : after.flights = before.flights →
      ∃ old, before.flights[index]? = some old ∧ Told (awaited request) index old flight :=
    fun same => ⟨flight, same ▸ found, rfl, rfl, fun _ => rfl⟩
  have same : ∀ (condition : Prop) [Decidable condition] (next : Shared),
      next.flights = before.flights → (if condition then some next else none) = some after →
      after.flights = before.flights := by
    intro condition _ next kept passed
    obtain ⟨-, taken⟩ := Option.ite_none_right_eq_some.mp passed
    cases taken
    exact kept
  cases request with
  | send requests =>
      obtain ⟨-, taken⟩ := Option.ite_none_right_eq_some.mp done
      cases taken
      change (before.flights ++ launch thread requests)[index]? = some flight at found
      rw [List.getElem?_append] at found
      split at found
      · exact Or.inl ⟨flight, found, rfl, rfl, fun _ => rfl⟩
      · rename_i beyond
        obtain ⟨one, inside, made⟩ := List.mem_map.mp (List.mem_of_getElem? found)
        exact Or.inr ⟨Nat.not_lt.mp beyond, one, inside, made.symm⟩
  | await handles =>
      obtain ⟨flights, replied, rfl⟩ := Option.map_eq_some_iff.mp done
      exact Or.inl (awaitReplies_flight replied found)
  | commit writes =>
      obtain ⟨db, -, rfl⟩ := Option.map_eq_some_iff.mp done
      exact Or.inl (still rfl)
  | uuid4 =>
      obtain ⟨-, taken⟩ := Option.ite_none_right_eq_some.mp done
      cases taken
      exact Or.inl (still rfl)
  | _ => exact Or.inl (still (same _ _ rfl done))

theorem drifts_kept {before after : Shared} (drifts : Drifts before after) {index : Nat}
    {old : Flight Tid} (found : before.flights[index]? = some old) :
    ∃ flight, after.flights[index]? = some flight ∧ Follows old flight := by
  have inside : index < after.flights.length := by
    rw [drifts_length drifts]
    exact (List.getElem?_eq_some_iff.mp found).1
  obtain ⟨earlier, present, follows⟩ :=
    drifts.flights index _ (List.getElem?_eq_getElem inside)
  obtain rfl := Option.some.inj (present.symm.trans found)
  exact ⟨_, List.getElem?_eq_getElem inside, follows⟩

theorem exec_kept {thread : Tid} {before after : Shared} {request : Op} {answer : Res request}
    (done : exec thread before request answer = some after) {index : Nat} {old : Flight Tid}
    (found : before.flights[index]? = some old) :
    ∃ flight, after.flights[index]? = some flight ∧ Told (awaited request) index old flight := by
  have present := (List.getElem?_eq_some_iff.mp found).1
  have grown := congrArg List.length (exec_wire done)
  simp only [wire, List.length_map, List.length_append] at grown
  have inside : index < after.flights.length := by omega
  rcases exec_flight done (List.getElem?_eq_getElem inside) with
    ⟨earlier, there, told⟩ | ⟨late, -⟩
  · obtain rfl := Option.some.inj (there.symm.trans found)
    exact ⟨_, List.getElem?_eq_getElem inside, told⟩
  · omega

def Lasting (before after : Shared) : Prop :=
  ∀ (index : Nat) (flight : Flight Tid), before.flights[index]? = some flight →
    ∃ later, after.flights[index]? = some later ∧ sent later = sent flight

theorem exec_lasting {thread : Tid} {before after : Shared} {request : Op} {answer : Res request}
    (done : exec thread before request answer = some after) : Lasting before after := by
  intro index flight found
  obtain ⟨later, there, told⟩ := exec_kept done found
  exact ⟨later, there, told.sent⟩

theorem drifts_lasting {before after : Shared} (drifts : Drifts before after) :
    Lasting before after := by
  intro index flight found
  obtain ⟨later, there, follows⟩ := drifts_kept drifts found
  exact ⟨later, there, follows.sent⟩

/-- What has come back of some requests: every reply is the answer of a flight
that carries its request. -/
structure Heard (base : Nat) (requests : List (Uuid × NodeRequest)) (replies : List Reply)
    (shared : Shared) : Prop where
  length : replies.length = requests.length
  answers : ∀ (index : Nat) (one : Uuid × NodeRequest) (response : HttpResponse),
    requests[index]? = some one → replies[index]? = some (some response) →
      ∃ handle flight, base ≤ handle ∧ shared.flights[handle]? = some flight ∧
        flight.node = one.1 ∧ flight.request = one.2 ∧ flight.state = .answered response

def OnWire (thread : Tid) (handle : Nat) (requests : List (Uuid × NodeRequest))
    (shared : Shared) : Prop :=
  ∀ (index : Nat) (one : Uuid × NodeRequest), requests[index]? = some one →
    ∃ flight, shared.flights[handle + index]? = some flight ∧ sent flight = (thread, one)

theorem onWire_later {thread : Tid} {handle : Nat} {requests : List (Uuid × NodeRequest)}
    {before after : Shared} (lasting : Lasting before after)
    (on : OnWire thread handle requests before) : OnWire thread handle requests after := by
  intro index one asked
  obtain ⟨flight, found, same⟩ := on index one asked
  obtain ⟨later, there, kept⟩ := lasting _ flight found
  exact ⟨later, there, kept.trans same⟩

theorem send_onWire {thread : Tid} {requests : List (Uuid × NodeRequest)} {handles : List Nat}
    {before after : Shared} (done : exec thread before (.send requests) handles = some after) :
    handles = List.range' before.flights.length requests.length ∧
      OnWire thread before.flights.length requests after := by
  obtain ⟨same, taken⟩ := Option.ite_none_right_eq_some.mp done
  cases taken
  refine ⟨same, fun index one asked => ?_⟩
  refine ⟨⟨thread, one.1, one.2, .pending, none⟩, ?_, rfl⟩
  change (before.flights ++ launch thread requests)[_]? = _
  rw [List.getElem?_append_right (Nat.le_add_right _ _), Nat.add_sub_cancel_left, launch,
    List.getElem?_map, asked]
  rfl

/-- Waiting for these requests tells what became of them. -/
theorem await_heard {thread : Tid} {requests : List (Uuid × NodeRequest)} {base handle : Nat}
    {replies : List Reply} {before after : Shared} (late : base ≤ handle)
    (on : OnWire thread handle requests before)
    (done : exec thread before (.await (List.range' handle requests.length)) replies = some after) :
    Heard base requests replies after := by
  obtain ⟨flights, replied, -⟩ := Option.map_eq_some_iff.mp done
  obtain ⟨count, heard⟩ := awaitReplies_heard replied
  rw [List.length_range'] at count
  refine ⟨count, fun index one response asked told => ?_⟩
  obtain ⟨flight, found, same⟩ := on index one asked
  have inside := (List.getElem?_eq_some_iff.mp asked).1
  have named : (List.range' handle requests.length)[index]? = some (handle + index) := by
    simp [inside]
  obtain ⟨answered, there, state⟩ := heard index _ response named told
  obtain rfl := Option.some.inj (there.symm.trans found)
  obtain ⟨later, last, kept⟩ := exec_kept done found
  have carried := kept.sent.trans same
  simp only [sent, Prod.mk.injEq] at carried
  refine ⟨handle + index, later, by omega, last, ?_, ?_, kept.state.trans state⟩
  · exact congrArg Prod.fst carried.2
  · exact congrArg Prod.snd carried.2

end SecureFileSystem.Wire
