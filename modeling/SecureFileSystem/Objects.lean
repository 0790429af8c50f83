import SecureFileSystem.Wire

/-!
What the world does to the objects on the nodes: one is there until a DELETE is
carried out or a fault strikes it, and a PUT is answered with 201 exactly when
its node has stored the bytes.
-/

namespace SecureFileSystem.Objects

open Base Database Fleet Session Wire

variable {platform : Platform} {before after : Shared}

/-- Only a DELETE takes an object away. -/
theorem serve_present (stored : StoredShard) (request : NodeRequest)
    (keeps : ∀ id, request ≠ .delete id) :
    (serve platform (some stored) request).2 = some stored := by
  cases request with
  | put id data =>
      simp only [serve]
      split <;> rfl
  | get id =>
      simp only [serve]
      split <;> rfl
  | delete id => exact absurd rfl (keeps id)
  | healthz => rfl

theorem serve_put {entry : Option StoredShard} {id : Uuid} {data : Bytes}
    (created : (serve platform entry (.put id data)).1.status = 201) :
    entry = none ∧ (serve platform entry (.put id data)).2 = some ⟨platform.sha256Hex data, data⟩ := by
  cases entry with
  | none =>
      simp only [serve] at created ⊢
      split at created
      · cases created
      · rename_i nonempty
        simp [nonempty]
  | some stored =>
      simp only [serve] at created
      split at created <;> cases created

theorem store_self (shared : Shared) (node id : Uuid) (entry : Option StoredShard) :
    (shared.store node id entry).objects node id = entry := by
  simp [Shared.store]

theorem store_other (shared : Shared) {node id other shardId : Uuid} (entry : Option StoredShard)
    (apart : ¬ (other = node ∧ shardId = id)) :
    (shared.store node id entry).objects other shardId = shared.objects other shardId := by
  simp [Shared.store, apart]

/-- Where a request touches one object, its own, as its handler says. -/
theorem execute_objects (shared : Shared) (handle : Nat) (flight : Flight Tid) (node id : Uuid) :
    (shared.execute platform handle flight).objects node id =
      if flight.node = node ∧ flight.request.shard = some id then
        (serve platform (shared.objects node id) flight.request).2
      else shared.objects node id := by
  unfold Shared.execute
  split
  · rename_i silent
    rw [silent]
    simp [Shared.settle]
  · rename_i shardId named
    rw [named]
    by_cases here : flight.node = node ∧ shardId = id
    · obtain ⟨rfl, rfl⟩ := here
      rw [if_pos ⟨rfl, rfl⟩]
      exact store_self shared flight.node shardId _
    · rw [if_neg (by simpa using here)]
      have apart : ¬ (node = flight.node ∧ id = shardId) := fun same =>
        here ⟨same.1.symm, same.2.symm⟩
      exact store_other shared _ apart

/-- An object stays until it is deleted or damaged. -/
theorem object_kept {event : Event} (done : environment platform before event = some after)
    {node id : Uuid} {entry : StoredShard} (held : before.objects node id = some entry)
    (undamaged : ∀ other, event ≠ .damage node id other)
    (undeleted : ∀ flight ∈ before.flights, flight.state = .pending → flight.node = node →
      flight.request ≠ .delete id) :
    after.objects node id = some entry := by
  cases event with
  | execute handle =>
      obtain ⟨flight, pending, rfl⟩ := Option.map_eq_some_iff.mp done
      rw [execute_objects]
      split
      · rename_i here
        rw [held]
        apply serve_present
        rintro other same
        obtain ⟨found, waiting⟩ := pending_found pending
        rw [same] at here
        cases here.2
        exact undeleted flight (List.mem_of_getElem? found) waiting here.1 same
      · exact held
  | damage other shardId replacement =>
      cases done
      have apart : ¬ (node = other ∧ id = shardId) := by
        rintro ⟨rfl, rfl⟩
        exact undamaged replacement rfl
      rw [store_other before replacement apart]
      exact held
  | lose handle =>
      obtain ⟨flight, -, rfl⟩ := Option.map_eq_some_iff.mp done
      exact held
  | misreply handle response =>
      obtain ⟨flight, -, rfl⟩ := Option.map_eq_some_iff.mp done
      exact held
  | register node =>
      obtain ⟨-, same⟩ := Option.ite_none_right_eq_some.mp done
      cases same
      exact held
  | tick _ => cases done; exact held
  | operator _ _ => cases done; exact held

/-- An answer that is no node's own to a PUT says anything but that it is done. -/
def Honest (shared : Shared) : Event → Prop
  | .misreply handle response => ∀ flight, shared.pending handle = some flight →
      ∀ id data, flight.request = .put id data → response.status ≠ 201
  | _ => True

theorem answered_now {event : Event} (done : environment platform before event = some after)
    {index : Nat} {old flight : Flight Tid} {response : HttpResponse}
    (waiting : before.flights[index]? = some old) (pending : old.state = .pending)
    (found : after.flights[index]? = some flight) (answered : flight.state = .answered response) :
    before.pending index = some old ∧
      (after = before.execute platform index old ∨ event = .misreply index response) := by
  have here : before.pending index = some old := by
    rw [Shared.pending, waiting]
    exact if_pos pending
  -- A flight that was pending is answered only by an event that settles it.
  have unsettled : after.flights = before.flights → False := by
    intro same
    rw [same] at found
    obtain rfl := Option.some.inj (found.symm.trans waiting)
    rw [pending] at answered
    cases answered
  have settled : ∀ {handle asked} (state : FlightState), before.pending handle = some asked →
      (before.flights.set handle { asked with state := state })[index]? = some flight →
      index = handle ∧ flight = { asked with state := state } := by
    intro handle asked state there inside
    rcases set_flight _ (pending_found there).1 inside with kept | ⟨same, -, changed⟩
    · obtain rfl := Option.some.inj (kept.symm.trans waiting)
      rw [pending] at answered
      cases answered
    · exact ⟨same, changed⟩
  refine ⟨here, ?_⟩
  cases event with
  | execute handle =>
      obtain ⟨asked, there, rfl⟩ := Option.map_eq_some_iff.mp done
      have same : index = handle := by
        unfold Shared.execute at found
        split at found
        · exact (settled _ there found).1
        · exact (settled _ there found).1
      subst same
      obtain rfl := Option.some.inj (there.symm.trans here)
      exact Or.inl rfl
  | lose handle =>
      obtain ⟨asked, there, rfl⟩ := Option.map_eq_some_iff.mp done
      obtain ⟨-, rfl⟩ := settled _ there found
      cases answered
  | misreply handle other =>
      obtain ⟨asked, there, rfl⟩ := Option.map_eq_some_iff.mp done
      obtain ⟨rfl, rfl⟩ := settled _ there found
      cases answered
      exact Or.inr rfl
  | register node =>
      obtain ⟨-, same⟩ := Option.ite_none_right_eq_some.mp done
      cases same
      exact (unsettled rfl).elim
  | tick _ => cases done; exact (unsettled rfl).elim
  | damage _ _ _ => cases done; exact (unsettled rfl).elim
  | operator _ _ => cases done; exact (unsettled rfl).elim

theorem execute_answer {shared : Shared} {index : Nat} {asked flight : Flight Tid} (id : Uuid)
    (there : shared.flights[index]? = some asked) (named : asked.request.shard = some id)
    (found : (shared.execute platform index asked).flights[index]? = some flight) :
    flight = { asked with
      state := .answered (serve platform (shared.objects asked.node id) asked.request).1 } := by
  have inside := (List.getElem?_eq_some_iff.mp there).1
  unfold Shared.execute at found
  rw [named] at found
  change (shared.flights.set index _)[index]? = some flight at found
  rw [List.getElem?_set_self inside] at found
  exact (Option.some.inj found).symm

theorem put_stored {event : Event} (done : environment platform before event = some after)
    (honest : Honest before event) {index : Nat} {old flight : Flight Tid} {id : Uuid} {data : Bytes}
    {response : HttpResponse} (waiting : before.flights[index]? = some old)
    (pending : old.state = .pending) (found : after.flights[index]? = some flight)
    (put : flight.request = .put id data) (answered : flight.state = .answered response)
    (created : response.status = 201) :
    before.objects flight.node id = none ∧
      after.objects flight.node id = some ⟨platform.sha256Hex data, data⟩ := by
  obtain ⟨there, carried | wrong⟩ := answered_now done waiting pending found answered
  · obtain ⟨earlier, present, follows⟩ := environment_flight event done found
    obtain rfl := Option.some.inj (present.symm.trans waiting)
    have same := follows.sent
    simp only [sent, Prod.mk.injEq] at same
    rw [put] at same
    subst carried
    have changed := execute_answer id waiting (by rw [← same.2.2]; rfl) found
    rw [changed] at answered
    cases answered
    rw [← same.2.2] at created
    obtain ⟨absent, stored⟩ := serve_put created
    rw [same.2.1]
    refine ⟨absent, ?_⟩
    rw [execute_objects, ← same.2.2, if_pos ⟨rfl, rfl⟩]
    exact stored
  · obtain ⟨earlier, present, follows⟩ := environment_flight event done found
    obtain rfl := Option.some.inj (present.symm.trans waiting)
    have same := follows.sent
    simp only [sent, Prod.mk.injEq] at same
    subst wrong
    exact absurd created (honest earlier there id data (same.2.2.symm.trans put))

/-- A node answers with what it has done, and no object appears by itself. Requests,
answers and objects may be lost, objects may be spoiled. -/
def Delivered (shared : Shared) : Event → Prop
  | .misreply _ _ => False
  | .damage node id entry => shared.objects node id = none → entry = none
  | _ => True

/-- An object that has come up has been put there. -/
theorem object_appears {event : Event} (done : environment platform before event = some after)
    (delivered : Delivered before event) {node id : Uuid} (present : after.objects node id ≠ none) :
    before.objects node id ≠ none ∨ ∃ handle flight data, event = .execute handle ∧
      before.pending handle = some flight ∧ flight.node = node ∧ flight.request = .put id data := by
  cases event with
  | execute handle =>
      obtain ⟨flight, pending, rfl⟩ := Option.map_eq_some_iff.mp done
      rw [execute_objects] at present
      split at present
      · rename_i here
        obtain ⟨rfl, shard⟩ := here
        cases asked : flight.request with
        | put other data =>
            rw [asked] at shard
            cases shard
            exact Or.inr ⟨handle, flight, data, rfl, pending, rfl, asked⟩
        | get other =>
            left
            rw [asked] at present
            intro absent
            rw [absent] at present
            exact present rfl
        | delete other =>
            rw [asked] at present
            revert present
            cases before.objects flight.node id <;> exact fun present => absurd rfl present
        | healthz =>
            rw [asked] at shard
            cases shard
      · exact Or.inl present
  | damage other shardId entry =>
      cases done
      by_cases here : node = other ∧ id = shardId
      · obtain ⟨rfl, rfl⟩ := here
        rw [store_self] at present
        exact Or.inl fun absent => present (delivered absent)
      · rw [store_other before entry here] at present
        exact Or.inl present
  | lose handle =>
      obtain ⟨flight, -, rfl⟩ := Option.map_eq_some_iff.mp done
      exact Or.inl present
  | misreply handle response => exact delivered.elim
  | register added =>
      obtain ⟨-, same⟩ := Option.ite_none_right_eq_some.mp done
      cases same
      exact Or.inl present
  | tick _ => cases done; exact Or.inl present
  | operator _ _ => cases done; exact Or.inl present

/-- A DELETE that has just been answered has been carried out. -/
theorem delete_carried {event : Event} (done : environment platform before event = some after)
    (delivered : Delivered before event) {index : Nat} {old flight : Flight Tid} {id : Uuid}
    {response : HttpResponse} (waiting : before.flights[index]? = some old)
    (pending : old.state = .pending) (found : after.flights[index]? = some flight)
    (asked : flight.request = .delete id) (answered : flight.state = .answered response) :
    after.objects flight.node id = none ∧ succeeded (deleteShard (some response)) = true := by
  obtain ⟨earlier, there, follows⟩ := environment_flight event done found
  obtain rfl := Option.some.inj (there.symm.trans waiting)
  have same := follows.sent
  simp only [sent, Prod.mk.injEq] at same
  have sought : earlier.request = .delete id := same.2.2.symm.trans asked
  obtain ⟨-, carried | wrong⟩ := answered_now done waiting pending found answered
  · subst carried
    have changed := execute_answer id waiting (by rw [sought]; rfl) found
    rw [changed] at answered
    cases answered
    rw [same.2.1, execute_objects, if_pos ⟨rfl, by rw [sought]; rfl⟩, sought]
    cases before.objects earlier.node id <;> exact ⟨rfl, rfl⟩
  · subst wrong
    exact delivered.elim

theorem exec_objects {thread : Tid} {request : Op} {answer : Res request}
    (done : exec thread before request answer = some after) : after.objects = before.objects := by
  have same : ∀ (condition : Prop) [Decidable condition] (next : Shared),
      next.objects = before.objects → (if condition then some next else none) = some after →
      after.objects = before.objects := by
    intro condition _ next kept passed
    obtain ⟨-, taken⟩ := Option.ite_none_right_eq_some.mp passed
    cases taken
    exact kept
  cases request with
  | commit writes =>
      obtain ⟨db, -, rfl⟩ := Option.map_eq_some_iff.mp done
      rfl
  | await handles =>
      obtain ⟨flights, -, rfl⟩ := Option.map_eq_some_iff.mp done
      rfl
  | now => exact same _ _ rfl done
  | uuid4 => exact same _ { before with issued := (thread, answer) :: before.issued } rfl done
  | shuffle _ => exact same _ _ rfl done
  | selectFiles _ => exact same _ _ rfl done
  | selectPlaced _ => exact same _ _ rfl done
  | selectNodes _ => exact same _ _ rfl done
  | send requests =>
      exact same _ { before with flights := before.flights ++ launch thread requests } rfl done

end SecureFileSystem.Objects
