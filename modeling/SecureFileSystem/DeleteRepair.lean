import SecureFileSystem.Orphans
import SecureFileSystem.Records
import SecureFileSystem.Removal

/-!
A delete and a repair of the same file. The repair puts a copy on a node before
the row names it, so the copy is accounted for only if the row is still there
when it is repointed. Where it always is, whatever either of the two leaves
behind is named by a row, and the next pass over deleted files takes all of it.
-/

namespace SecureFileSystem.DeleteRepair

open Base Database Fleet Session LifeCycle Program Transition RelyGuarantee Files Maintenance
  Service Interference Stability Conduct Guarantees Wire Objects Records Layering Removal

/-- A file, and the state from which on it is deleted and repaired. -/
structure Race where
  fileId : Uuid
  start : Shared

def Race.base (race : Race) : Nat := race.start.flights.length

/-- The ids of the file's objects: those of its rows, and those drawn for their copies. -/
def Race.Own (race : Race) (shared : Shared) (id : Uuid) : Prop :=
  id ∈ (race.start.db.shardsOf race.fileId).map (·.id) ∨
    ((Tid.worker, id) ∈ shared.issued ∧ id ∉ race.start.issued.map (·.2))

def Race.Named (race : Race) (shared : Shared) (node id : Uuid) : Prop :=
  ∃ row ∈ shared.db.shards, row.fileId = race.fileId ∧ row.id = id ∧ row.nodeId = node

def Putting (shared : Shared) (node id : Uuid) : Prop :=
  ∃ flight ∈ shared.flights, flight.state = .pending ∧ flight.node = node ∧
    ∃ data, flight.request = .put id data

/-- Every object of the file, stored or on its way, is named by a row, but for these. -/
def Race.Tidy (race : Race) (but : List (Uuid × Uuid)) (shared : Shared) : Prop :=
  ∀ node id, race.Own shared id → shared.objects node id ≠ none ∨ Putting shared node id →
    race.Named shared node id ∨ (node, id) ∈ but

structure Race.Held (race : Race) (shared : Shared) : Prop where
  stored : ∀ node id, shared.objects node id ≠ none → Known shared id
  named : ∀ flight ∈ shared.flights, ∀ id, flight.request.shard = some id → Known shared id
  puts : ∀ node id, Putting shared node id → id ∉ used shared
  deletes : ∀ (index : Nat) (flight : Flight Tid) (id : Uuid), race.base ≤ index →
    shared.flights[index]? = some flight → flight.request = .delete id → id ∈ used shared ∧
      ∀ response, flight.state = .answered response →
        shared.objects flight.node id = none ∧ succeeded (deleteShard (some response)) = true
  length : race.base ≤ shared.flights.length
  known : race.fileId ∈ used shared

/-- What has been sent stays as it was sent, and what has been answered stays answered. -/
def Remembered (before after : Shared) : Prop :=
  ∀ (index : Nat) (flight : Flight Tid), before.flights[index]? = some flight →
    ∃ later, after.flights[index]? = some later ∧ sent later = sent flight ∧
      (later.state = flight.state ∨ flight.state = .pending)

/-- A step that puts nothing, and takes rows only of objects that have gone. -/
structure Elsewhere (before after : Shared) : Prop where
  kept : Remembered before after
  added : ∀ (index : Nat) (flight : Flight Tid), after.flights[index]? = some flight →
    (∃ old, before.flights[index]? = some old ∧ sent flight = sent old ∧
      (flight.state = old.state ∨ old.state = .pending)) ∨
    ((∀ id data, flight.request ≠ .put id data) ∧
      ∀ id, flight.request.shard = some id → id ∈ used before)
  objects : ∀ node id, after.objects node id ≠ none → before.objects node id ≠ none ∨
    ∃ (index : Nat) (old flight : Flight Tid) (data : Bytes) (response : HttpResponse),
      before.flights[index]? = some old ∧ old.state = .pending ∧ old.node = node ∧
      old.request = .put id data ∧ after.flights[index]? = some flight ∧
      flight.state = .answered response ∧ response.status = 201
  rows : ∀ row ∈ after.db.shards, row ∈ before.db.shards ∨ row.fileId ∉ used before
  lost : ∀ row ∈ before.db.shards, row ∈ after.db.shards ∨ after.objects row.nodeId row.id = none
  drawn : ∀ id, (Tid.worker, id) ∈ after.issued ↔ (Tid.worker, id) ∈ before.issued
  old : ∀ id ∈ used after, id ∈ used before

section Steps
variable {platform : Platform} {race : Race} {thread : Tid} {before after : Shared}

theorem remembered_lasting (kept : Remembered before after) : Lasting before after := by
  intro index flight found
  obtain ⟨later, there, same, -⟩ := kept index flight found
  exact ⟨later, there, same⟩

theorem exec_remembered {request : Op} {answer : Res request}
    (done : exec thread before request answer = some after) : Remembered before after := by
  intro index flight found
  obtain ⟨later, there, told⟩ := exec_kept done found
  exact ⟨later, there, told.sent, Or.inl told.state⟩

theorem elsewhere_putting (elsewhere : Elsewhere before after) {node id : Uuid}
    (putting : Putting after node id) : Putting before node id := by
  obtain ⟨flight, member, pending, place, data, asked⟩ := putting
  obtain ⟨index, inside, rfl⟩ := List.getElem_of_mem member
  rcases elsewhere.added index _ (List.getElem?_eq_getElem inside) with
    ⟨old, there, same, state⟩ | ⟨silent, -⟩
  · simp only [sent, Prod.mk.injEq] at same
    refine ⟨old, List.mem_of_getElem? there, ?_, same.2.1.symm.trans place, data,
      same.2.2.symm.trans asked⟩
    rcases state with still | waiting
    · exact still.symm.trans pending
    · exact waiting
  · exact absurd asked (silent id data)

theorem own_elsewhere (elsewhere : Elsewhere before after) (id : Uuid) :
    race.Own after id ↔ race.Own before id := by
  unfold Race.Own
  rw [elsewhere.drawn]

theorem tidy_elsewhere {but : List (Uuid × Uuid)} (wf : WellFormed before) (held : race.Held before)
    (elsewhere : Elsewhere before after) (tidy : race.Tidy but before) : race.Tidy but after := by
  intro node id own there
  -- what is there now was there, or on its way
  have earlier : before.objects node id ≠ none ∨ Putting before node id := by
    rcases there with present | putting
    · rcases elsewhere.objects node id present with
        old | ⟨index, old, flight, data, response, found, pending, place, asked, -⟩
      · exact Or.inl old
      · exact Or.inr ⟨old, List.mem_of_getElem? found, pending, place, data, asked⟩
    · exact Or.inr (elsewhere_putting elsewhere putting)
  rcases tidy node id ((own_elsewhere elsewhere id).mp own) earlier with
    ⟨row, present, mine, rfl, rfl⟩ | excepted
  · left
    rcases elsewhere.lost row present with still | gone
    · exact ⟨row, still, mine, rfl, rfl⟩
    · rcases there with now | putting
      · exact absurd gone now
      · exact absurd (wf.shards_used row present)
          (held.puts row.nodeId row.id (elsewhere_putting elsewhere putting))
  · exact Or.inr excepted

theorem exec_elsewhere {request : Op} {answer : Res request}
    (done : exec thread before request answer = some after)
    (calm : ∀ one ∈ sends request, (∀ id data, one.2 ≠ .put id data) ∧
      ∀ id, one.2.shard = some id → id ∈ used before)
    (rows : ∀ row ∈ after.db.shards, row ∈ before.db.shards ∨ row.fileId ∉ used before)
    (lost : ∀ row ∈ before.db.shards, row ∈ after.db.shards ∨
      before.objects row.nodeId row.id = none)
    (drawn : after.issued = before.issued) (old : used after = used before) :
    Elsewhere before after := by
  constructor
  case kept => exact exec_remembered done
  case added =>
    intro index flight found
    rcases exec_flight done found with ⟨old, there, told⟩ | ⟨-, one, launched, rfl⟩
    · exact Or.inl ⟨old, there, told.sent, Or.inl told.state⟩
    · exact Or.inr (calm one launched)
  case objects =>
    intro node id present
    rw [exec_objects done] at present
    exact Or.inl present
  case rows => exact rows
  case lost =>
    intro row present
    rw [exec_objects done]
    exact lost row present
  case drawn =>
    intro id
    rw [drawn]
  case old => exact fun id member => old ▸ member

/-- What a thread's step has to respect: a block on the wire has an id no row has
had yet, and a DELETE names one that some row has. -/
theorem exec_held {request : Op} {answer : Res request}
    (done : exec thread before request answer = some after) (life : Life thread before after)
    (puts : ∀ node id, Putting after node id → id ∉ used after)
    (named : ∀ one ∈ sends request, ∀ id, one.2.shard = some id → Known before id)
    (deletes : ∀ one ∈ sends request, ∀ id, one.2 = .delete id → id ∈ used before)
    (held : race.Held before) : race.Held after := by
  have known : ∀ id, Known before id → Known after id := by
    intro id known
    obtain ⟨entry, member, rfl⟩ := List.mem_map.mp known
    exact List.mem_map_of_mem (life_issued life member)
  constructor
  case stored =>
    intro node id present
    rw [exec_objects done] at present
    exact known id (held.stored node id present)
  case named =>
    intro flight member id names
    obtain ⟨index, inside, rfl⟩ := List.getElem_of_mem member
    rcases exec_flight done (List.getElem?_eq_getElem inside) with
      ⟨old, there, told⟩ | ⟨-, one, launched, fresh⟩
    · have same := told.sent
      simp only [sent, Prod.mk.injEq] at same
      rw [same.2.2] at names
      exact known id (held.named old (List.mem_of_getElem? there) id names)
    · rw [fresh] at names
      exact known id (named one launched id names)
  case puts => exact puts
  case deletes =>
    intro index flight id late found asked
    rcases exec_flight done found with ⟨old, there, told⟩ | ⟨-, one, launched, rfl⟩
    · have same := told.sent
      simp only [sent, Prod.mk.injEq] at same
      obtain ⟨listed, carried⟩ :=
        held.deletes index old id late there (same.2.2.symm.trans asked)
      refine ⟨used_mono life listed, fun response answered => ?_⟩
      rw [exec_objects done, same.2.1]
      exact carried response (told.state.symm.trans answered)
    · refine ⟨used_mono life (deletes one launched id asked), ?_⟩
      rintro response ⟨⟩
  case length =>
    have grown := congrArg List.length (exec_wire done)
    simp only [wire, List.length_map, List.length_append] at grown
    exact held.length.trans (by omega)
  case known => exact used_mono life held.known

theorem environment_elsewhere {event : Event}
    (done : environment platform before event = some after) (delivered : Delivered before event) :
    Elsewhere before after := by
  have undisturbed := environment_undisturbed event done
  have drifts := environment_drifts event done
  constructor
  case kept =>
    intro index flight found
    obtain ⟨later, there, follows⟩ := drifts_kept drifts found
    exact ⟨later, there, follows.sent, follows.state⟩
  case added =>
    intro index flight found
    obtain ⟨old, there, follows⟩ := drifts.flights index flight found
    exact Or.inl ⟨old, there, follows.sent, follows.state⟩
  case objects =>
    intro node id present
    by_cases absent : before.objects node id = none
    · right
      rcases object_appears done delivered present with
        old | ⟨handle, flight, data, rfl, pending, rfl, asked⟩
      · exact absurd absent old
      · obtain ⟨found, waiting⟩ := pending_found pending
        obtain ⟨later, there, -⟩ := drifts_kept drifts found
        simp only [environment, pending, Option.map_some, Option.some.injEq] at done
        subst done
        have answered := execute_answer id found (by rw [asked]; rfl) there
        rw [execute_objects, if_pos ⟨rfl, by rw [asked]; rfl⟩, asked, absent] at present
        refine ⟨handle, flight, later, data, _, found, waiting, rfl, asked, there,
          congrArg Flight.state answered, ?_⟩
        rw [asked, absent]
        -- an empty block is refused and leaves nothing
        by_cases empty : data = []
        · subst empty
          exact absurd rfl present
        · simp [serve, empty, answer]
    · exact Or.inl absent
  case rows =>
    rw [undisturbed.shards]
    exact fun row member => Or.inl member
  case lost =>
    rw [undisturbed.shards]
    exact fun row member => Or.inl member
  case drawn =>
    intro id
    rw [undisturbed.issued]
  case old =>
    rw [used, undisturbed.log]
    exact fun id member => member

theorem environment_held {event : Event} (done : environment platform before event = some after)
    (delivered : Delivered before event) (held : race.Held before) : race.Held after := by
  have elsewhere := environment_elsewhere done delivered
  have undisturbed := environment_undisturbed event done
  have drifts := environment_drifts event done
  have same : used after = used before := by rw [used, undisturbed.log, used]
  have known : Known after = Known before := by
    funext id
    rw [Known, undisturbed.issued, Known]
  constructor
  case stored =>
    intro node id present
    rw [known]
    rcases elsewhere.objects node id present with
      old | ⟨index, old, flight, data, response, found, -, -, asked, -⟩
    · exact held.stored node id old
    · exact held.named old (List.mem_of_getElem? found) id (by rw [asked]; rfl)
  case named =>
    intro flight member id names
    obtain ⟨index, inside, rfl⟩ := List.getElem_of_mem member
    obtain ⟨old, there, follows⟩ := drifts.flights index _ (List.getElem?_eq_getElem inside)
    have carried := follows.sent
    simp only [sent, Prod.mk.injEq] at carried
    rw [known]
    rw [carried.2.2] at names
    exact held.named old (List.mem_of_getElem? there) id names
  case puts =>
    intro node id putting
    rw [same]
    exact held.puts node id (elsewhere_putting elsewhere putting)
  case deletes =>
    intro index flight id late found asked
    obtain ⟨old, there, follows⟩ := drifts.flights index flight found
    have carried := follows.sent
    simp only [sent, Prod.mk.injEq] at carried
    obtain ⟨listed, gone⟩ := held.deletes index old id late there (carried.2.2.symm.trans asked)
    rw [same]
    refine ⟨listed, fun response answered => ?_⟩
    rcases follows.state with still | waiting
    · obtain ⟨absent, confirms⟩ := gone response (still.symm.trans answered)
      refine ⟨?_, confirms⟩
      rw [carried.2.1]
      -- a block on the wire is another one
      by_contra present
      rcases elsewhere.objects old.node id present with
        earlier | ⟨other, put, _, data, _, found, pending, place, puts, -⟩
      · exact earlier absent
      · exact held.puts old.node id ⟨put, List.mem_of_getElem? found, pending, place, data, puts⟩
          listed
    · exact delete_carried done delivered there waiting found asked answered
  case length =>
    rw [drifts_length drifts]
    exact held.length
  case known =>
    rw [same]
    exact held.known

theorem used_commit {writes : List Write} {answer : Unit}
    (done : exec thread before (.commit writes) answer = some after) :
    used after = used before ++ writes.flatMap newIds := by
  unfold used
  rw [exec_log done, List.flatMap_append]
  simp [commits]

theorem commit_elsewhere {writes : List Write} (held : race.Held before)
    (done : exec thread before (.commit writes) () = some after) (life : Life thread before after)
    (old : writes.flatMap newIds = []) (rows : ∀ row ∈ after.db.shards, row ∈ before.db.shards)
    (lost : ∀ row ∈ before.db.shards, row ∈ after.db.shards ∨
      before.objects row.nodeId row.id = none) : race.Held after ∧ Elsewhere before after := by
  have issued : after.issued = before.issued := by
    obtain ⟨db, -, rfl⟩ := Option.map_eq_some_iff.mp done
    rfl
  have same : used after = used before := by rw [used_commit done, old, List.append_nil]
  have elsewhere : Elsewhere before after :=
    exec_elsewhere done nofun (fun row member => Or.inl (rows row member)) lost issued same
  refine ⟨exec_held done life ?_ nofun nofun held, elsewhere⟩
  intro node id putting
  rw [same]
  exact held.puts node id (elsewhere_putting elsewhere putting)

theorem calm_elsewhere {request : Op} {answer : Res request} (held : race.Held before)
    (wf : WellFormed before) (calm : quiet request)
    (done : exec thread before request answer = some after) (life : Life thread before after)
    (asks : ∀ one ∈ sends request, (∀ id data, one.2 ≠ .put id data) ∧
      ∀ id, one.2.shard = some id → id ∈ used before) :
    race.Held after ∧ Elsewhere before after := by
  have undisturbed := exec_quiet calm done
  have same : used after = used before := by rw [used, undisturbed.log, used]
  have elsewhere : Elsewhere before after := by
    apply exec_elsewhere done asks
    · rw [undisturbed.shards]
      exact fun row member => Or.inl member
    · rw [undisturbed.shards]
      exact fun row member => Or.inl member
    · exact undisturbed.issued
    · exact same
  refine ⟨exec_held done life ?_ ?_ ?_ held, elsewhere⟩
  · intro node id putting
    rw [same]
    exact held.puts node id (elsewhere_putting elsewhere putting)
  · exact fun one member id names => wf.used_issued id ((asks one member).2 id names)
  · exact fun one member id asked => (asks one member).2 id (by rw [asked]; rfl)

end Steps

/-! ### The rules of the race -/

/-- The worker repairs the file, or collects deleted files once this one is deleted; the
requests delete it. Nodes answer every request, and answer for themselves. -/
def Race.reliable (race : Race) (shared : Shared) : ServiceLabel → Prop
  | .start .worker job => (∃ bad, job = .repairFile race.fileId bad) ∨
      (job = .gcDeletedFiles ∧ ∀ file ∈ shared.db.files, file.id = race.fileId →
        file.status = .deleted)
  | .start (.api _) job => ∃ userId ipAddress, job = .deleteFile userId race.fileId ipAddress
  | .fail thread => thread ≠ .worker
  | .act _ (.await _) replies => none ∉ replies
  | .env event => Delivered shared event
  | _ => True

/-- Every row that is repointed is still there. -/
def finds (shared : Shared) : ServiceLabel → Prop
  | .act _ (.commit writes) _ => ∀ old new node, .repoint old new node ∈ writes →
      ∃ row ∈ shared.db.shards, row.id = old
  | _ => True

def Race.layer (race : Race) : Layer where
  inv := race.Held
  move := fun thread before after => race.Held after ∧ Remembered before after ∧
    (thread ≠ .worker → Elsewhere before after)
  drift := fun before after => race.Held after ∧ Elsewhere before after
  allowed := fun shared label => (race.reliable shared label ∧ finds shared label) ∧
    ∀ job, label = .start .worker job → race.Tidy [] shared

theorem layer_sound (platform : Platform) (race : Race) : Sound platform race.layer where
  move_inv := fun _ _ _ _ _ _ move => move.1
  drift_inv := fun _ _ _ _ _ drift => drift.1
  drifts := fun _ _ _ held done may =>
    ⟨environment_held done may.1.1 held, environment_elsewhere done may.1.1⟩

/-- What the worker leaves behind: nothing of the file without its row, and after a
collection nothing at all. -/
def Race.post (race : Race) : Tid → Job → Outcome → Shared → Prop
  | .worker, job, _, shared => race.Tidy [] shared ∧
      (job = .gcDeletedFiles → shared.db.shardsOf race.fileId = [])
  | .api _, _, _, _ => True

section Rules
variable {platform : Platform} {race : Race} {thread : Tid} {Mid Out : Type}
  {result : Out → Shared → Prop} {holds left right : Shared → Prop} {state : Shared}

/-- What survives every step that puts nothing. -/
def Settled (race : Race) (holds : Shared → Prop) : Prop :=
  ∀ other before after, WellFormed before → race.Held before → Life other before after →
    Elsewhere before after → holds before → holds after

/-- What survives every step. -/
def Firm (holds : Shared → Prop) : Prop :=
  ∀ other before after, Life other before after → Remembered before after → holds before →
    holds after

structure Steady (race : Race) (thread : Tid) (holds : Shared → Prop) : Prop where
  stable : Stable (race.layer.contract race.post) thread holds
  settled : Settled race holds

theorem settled_steady (settled : Settled race holds) : Steady race .worker holds := by
  constructor
  · apply layer_stable
    · exact fun before after wf held undisturbed drift start =>
        settled .worker before after wf held (.quiet undisturbed) drift.2 start
    · exact fun other before after different wf held life move start =>
        settled other before after wf held life (move.2.2 different) start
  · exact settled

theorem firm_steady (firm : Firm holds) : Steady race thread holds := by
  constructor
  · apply layer_stable
    · exact fun before after _ _ undisturbed drift start =>
        firm thread before after (.quiet undisturbed) drift.2.kept start
    · exact fun other before after _ _ _ life move start =>
        firm other before after life move.2.1 start
  · exact fun other before after _ _ life elsewhere start =>
      firm other before after life elsewhere.kept start

theorem steady_and (first : Steady race thread left) (second : Steady race thread right) :
    Steady race thread fun shared => left shared ∧ right shared where
  stable := stable_and first.stable second.stable
  settled := fun other before after wf held life elsewhere both =>
    ⟨first.settled other before after wf held life elsewhere both.1,
      second.settled other before after wf held life elsewhere both.2⟩

theorem worker_steady (settled : Settled race holds) :
    Steady race thread fun shared => thread = .worker → holds shared := by
  by_cases worker : thread = .worker
  · subst worker
    constructor
    · exact fun before after wf later relies start mine =>
        (settled_steady settled).stable before after wf later relies (start mine)
    · exact fun other before after wf held life elsewhere start mine =>
        settled other before after wf held life elsewhere (start mine)
  · constructor
    · exact fun _ _ _ _ _ _ mine => absurd mine worker
    · exact fun _ _ _ _ _ _ _ _ mine => absurd mine worker

theorem trivial_steady : Steady race thread fun _ => True :=
  firm_steady fun _ _ _ _ _ _ => trivial

abbrev Contends (platform : Platform) (race : Race) (thread : Tid)
    (result : Out → Shared → Prop) (prog : Async Out) (state : Shared) : Prop :=
  Safe (service platform) (race.layer.contract race.post) thread result prog state

theorem contends_ret (steady : Steady race thread holds) {out : Out} (start : holds state)
    (done : ∀ later, holds later → result out later) :
    Contends platform race thread result (.ret out) state :=
  safe_ret steady.stable start fun later _ held => done later held

theorem contends_calm (request : Op) {next : Res request → Async Out} (calm : quiet request)
    (steady : Steady race thread holds) (start : holds state)
    (asks : ∀ shared, WellFormed shared → holds shared → ∀ one ∈ sends request,
      (∀ id data, one.2 ≠ .put id data) ∧ ∀ id, one.2.shard = some id → id ∈ used shared)
    (rest : ∀ before answer after, WellFormed before → race.Held before → holds before →
      race.Held after → holds after → exec thread before request answer = some after →
      race.reliable before (.act thread request answer) →
        Contends platform race thread result (next answer) after) :
    Contends platform race thread result ((Prog.perform request).bind next) state := by
  apply layer_op steady.stable start
  intro before answer after wf held start done life may
  obtain ⟨kept, elsewhere⟩ := calm_elsewhere held wf calm done life (asks before wf start)
  refine ⟨⟨kept, elsewhere.kept, fun _ => elsewhere⟩, ?_⟩
  exact rest before answer after wf held start kept
    (steady.settled thread before after wf held life elsewhere start) done may.1.1

theorem contends_read (request : Op) {next : Res request → Async Out} (reading : reads request)
    (steady : Steady race thread holds) (start : holds state)
    (rest : ∀ shared answer, WellFormed shared → race.Held shared → holds shared →
      exec thread shared request answer = some shared →
        Contends platform race thread result (next answer) shared) :
    Contends platform race thread result ((Prog.perform request).bind next) state := by
  have calm : quiet request := by cases request <;> trivial
  have silent : sends request = [] := by cases request <;> first | rfl | exact reading.elim
  apply contends_calm request calm steady start
  · rw [silent]
    exact fun _ _ _ => nofun
  · intro before answer after wf held start _ _ done _
    obtain rfl := exec_reads reading done
    exact rest after answer wf held start done

theorem onWire_firm (handle : Nat) (requests : List (Uuid × NodeRequest)) :
    Firm (OnWire thread handle requests) :=
  fun _ _ _ _ kept on => onWire_later (remembered_lasting kept) on

theorem contends_gather {requests : List (Uuid × NodeRequest)} {next : List Reply → Async Out}
    (steady : Steady race thread holds) (start : holds state)
    (asks : ∀ shared, WellFormed shared → holds shared → ∀ one ∈ requests,
      (∀ id data, one.2 ≠ .put id data) ∧ ∀ id, one.2.shard = some id → id ∈ used shared)
    (rest : ∀ replies later, race.Held later → holds later → none ∉ replies →
      Heard race.base requests replies later →
        Contends platform race thread result (next replies) later) :
    Contends platform race thread result ((gather requests).bind next) state := by
  apply contends_calm (.send requests) trivial steady start asks
  intro before handles after _ held _ _ still done _
  obtain ⟨rfl, on⟩ := send_onWire done
  apply contends_calm (.await _) trivial (steady_and steady (firm_steady (onWire_firm _ requests)))
    ⟨still, on⟩
  · exact fun _ _ _ => nofun
  · intro first replies last _ _ both now kept done told
    exact rest replies last now kept.1 told (await_heard held.length both.2 done)

end Rules

/-! ### Removal passes -/

section Passes
variable {platform : Platform} {race : Race} {thread : Tid} {holds : Shared → Prop} {state : Shared}

def Read (row : Shard) (shared : Shared) : Prop :=
  row.id ∈ used shared ∧ ∀ other ∈ shared.db.shards, other.id = row.id → other = row

theorem read_life {other : Tid} {row : Shard} {before after : Shared}
    (life : Life other before after) (read : Read row before) : Read row after := by
  refine ⟨used_mono life read.1, fun found member named => ?_⟩
  cases life_shard life found member with
  | same present => exact read.2 found present named
  | repointed old new node present worker unused change =>
      subst change
      have here : new = row.id := named
      exact absurd (here ▸ read.1) unused
  | uploaded unused _ => exact absurd (named ▸ read.1) unused

theorem reads_firm (rows : List Shard) : Firm fun shared => ∀ row ∈ rows, Read row shared :=
  fun _ _ _ life _ read row member => read_life life (read row member)

def Race.Deleted (race : Race) (node id : Uuid) (shared : Shared) : Prop :=
  ∃ index flight response, race.base ≤ index ∧ shared.flights[index]? = some flight ∧
    flight.node = node ∧ flight.request = .delete id ∧ flight.state = .answered response

theorem deleted_firm (node id : Uuid) : Firm (race.Deleted node id) := by
  rintro other before after life kept ⟨index, flight, response, late, found, place, asked, answered⟩
  obtain ⟨later, there, same, state⟩ := kept index flight found
  simp only [sent, Prod.mk.injEq] at same
  refine ⟨index, later, response, late, there, same.2.1.trans place, same.2.2.trans asked, ?_⟩
  rcases state with still | pending
  · exact still.trans answered
  · rw [answered] at pending
    cases pending

theorem deleted_absent {node id : Uuid} {shared : Shared} (held : race.Held shared)
    (deleted : race.Deleted node id shared) : shared.objects node id = none := by
  obtain ⟨index, flight, response, late, found, rfl, asked, answered⟩ := deleted
  exact ((held.deletes index flight id late found asked).2 response answered).1

def Race.Within (race : Race) (rows : List Shard) (shared : Shared) : Prop :=
  race.fileId ∈ used shared ∧ ∀ row ∈ shared.db.shards, row.fileId = race.fileId → row ∈ rows

theorem within_settled (rows : List Shard) : Settled race (race.Within rows) := by
  intro other before after _ _ life elsewhere within
  refine ⟨used_mono life within.1, fun row member mine => ?_⟩
  rcases elsewhere.rows row member with old | foreign
  · exact within.2 row old mine
  · exact absurd (mine ▸ within.1) foreign

theorem within_none {shared : Shared} (within : race.Within [] shared) :
    shared.db.shardsOf race.fileId = [] := by
  apply List.filter_eq_nil_iff.mpr
  intro row member mine
  exact List.not_mem_nil (within.2 row member (of_decide_eq_true mine))

theorem told_confirmed {placed : List (Shard × StorageNode)} {replies : List Reply}
    {shared : Shared} (held : race.Held shared)
    (heard : Heard race.base (removals placed) replies shared)
    (told : none ∉ replies) : ∀ one ∈ placed, one.1.id ∈ confirmed placed replies := by
  intro one member
  obtain ⟨index, inside, rfl⟩ := List.getElem_of_mem member
  have count : replies.length = placed.length := by
    rw [heard.length, removals, List.length_map]
  have answered : index < replies.length := count ▸ inside
  have asked : (removals placed)[index]? =
      some (placed[index].2.id, .delete placed[index].1.id) := by
    simp [removals, inside]
  cases reply : replies[index] with
  | none => exact absurd (reply ▸ List.getElem_mem answered) told
  | some response =>
      obtain ⟨handle, flight, late, there, place, request, state⟩ := heard.answers index _ response
        asked (List.getElem?_eq_some_iff.mpr ⟨answered, reply⟩)
      have success := ((held.deletes handle flight _ late there request).2 response state).2
      apply List.mem_filterMap.mpr
      refine ⟨(placed[index], replies[index]), ?_, ?_⟩
      · have both : (placed.zip replies)[index]? = some (placed[index], replies[index]) := by
          simp [inside, answered]
        exact List.mem_of_getElem? both
      · simp [reply, success]

theorem heard_deleted {placed : List (Shard × StorageNode)} {replies : List Reply} {shared : Shared}
    (heard : Heard race.base (removals placed) replies shared) {id : Uuid}
    (member : id ∈ confirmed placed replies) :
    ∃ one ∈ placed, one.1.id = id ∧ race.Deleted one.2.id id shared := by
  obtain ⟨index, one, response, found, told, rfl, -⟩ := confirmed_reply member
  have asked : (removals placed)[index]? = some (one.2.id, .delete one.1.id) := by
    simp [removals, found]
  obtain ⟨handle, flight, late, there, place, request, state⟩ :=
    heard.answers index _ response asked told
  exact ⟨one, List.mem_of_getElem? found, rfl, handle, flight, response, late, there, place,
    request, state⟩

theorem retract_elsewhere {placed : List (Shard × StorageNode)} {ids : List Uuid}
    {before after : Shared} (held : race.Held before)
    (done : exec thread before (.commit [.deleteShards ids]) () = some after)
    (life : Life thread before after) (joined : ∀ one ∈ placed, one.2.id = one.1.nodeId)
    (read : ∀ row ∈ placed.map Prod.fst, Read row before)
    (deleted : ∀ id ∈ ids, ∃ one ∈ placed, one.1.id = id ∧ race.Deleted one.2.id id before) :
    after.db.shards = before.db.shards.filter (·.id ∉ ids) ∧ race.Held after ∧
      Elsewhere before after := by
  have shards : after.db.shards = before.db.shards.filter (·.id ∉ ids) := by
    simp only [exec, Option.map_eq_some_iff] at done
    obtain ⟨db, committed, rfl⟩ := done
    cases committed
    rfl
  refine ⟨shards, commit_elsewhere held done life (by simp [newIds]) ?_ ?_⟩
  · rw [shards]
    exact fun row member => (List.mem_filter.mp member).1
  · intro row present
    rw [shards]
    by_cases removed : row.id ∈ ids
    · right
      obtain ⟨one, inside, same, away⟩ := deleted row.id removed
      obtain rfl := (read one.1 (List.mem_map_of_mem inside)).2 row present same.symm
      rw [← joined one inside]
      exact deleted_absent held away
    · exact Or.inl (List.mem_filter.mpr ⟨present, by simpa using removed⟩)

/-- A pass takes rows of deleted objects only, and a pass of the worker all rows of its file. -/
theorem removeDeletedShards_contends (file : File) (steady : Steady race thread holds)
    (start : holds state) :
    Contends platform race thread
      (fun _ later => holds later ∧
        (thread = .worker → file.id = race.fileId → race.Within [] later))
      (removeDeletedShards file) state := by
  apply contends_read (.selectPlaced _) trivial steady start
  intro shared placed wf held also done
  obtain ⟨order, -⟩ := Option.ite_none_right_eq_some.mp done
  have joined : ∀ one ∈ placed, one.1 ∈ shared.db.shards ∧ one.2.id = one.1.nodeId := by
    intro one member
    obtain ⟨stored, -, node⟩ := placed_shard (List.mem_filter.mp (order.mem_iff.mp member)).1
    exact ⟨stored, node⟩
  have read : ∀ row ∈ placed.map Prod.fst, Read row shared := by
    intro row member
    obtain ⟨one, inside, rfl⟩ := List.mem_map.mp member
    have stored := (joined one inside).1
    exact ⟨wf.shards_used one.1 stored, fun other present same =>
      List.inj_on_of_nodup_map wf.shards_nodup present stored same⟩
  have whole : thread = .worker → file.id = race.fileId →
      race.Within (placed.map Prod.fst) shared := by
    rintro - named
    refine ⟨held.known, fun row present mine => (placed_perm wf order).mem_iff.mpr ?_⟩
    exact List.mem_filter.mpr ⟨present, by simpa [named] using mine⟩
  have ofFile : ∀ rows, Steady race thread fun shared =>
      thread = .worker → file.id = race.fileId → race.Within rows shared := by
    intro rows
    apply worker_steady
    exact fun other before after wf held life elsewhere within named =>
      within_settled rows other before after wf held life elsewhere (within named)
  have kept := steady_and steady (steady_and (firm_steady (reads_firm (placed.map Prod.fst)))
    (ofFile (placed.map Prod.fst)))
  apply contends_gather kept ⟨also, read, whole⟩
  · rintro later - both one member
    obtain ⟨pair, inside, rfl⟩ := List.mem_map.mp member
    refine ⟨nofun, ?_⟩
    rintro id ⟨⟩
    exact (both.2.1 pair.1 (List.mem_map_of_mem inside)).1
  intro replies later held both told heard
  have cleared : Firm fun shared => ∀ id ∈ confirmed placed replies,
      ∃ one ∈ placed, one.1.id = id ∧ race.Deleted one.2.id id shared := by
    intro other before after life remembered all id member
    obtain ⟨one, inside, same, deleted⟩ := all id member
    exact ⟨one, inside, same, deleted_firm one.2.id id other before after life remembered deleted⟩
  have every := told_confirmed held heard told
  apply layer_op (steady_and kept (firm_steady cleared)).stable
    ⟨both, fun id member => heard_deleted heard member⟩
  intro before answer after wf held facts done life may
  obtain ⟨⟨also, read, whole⟩, deleted⟩ := facts
  obtain ⟨shards, now, elsewhere⟩ := retract_elsewhere held done life
    (fun one inside => (joined one inside).2) read deleted
  refine ⟨⟨now, elsewhere.kept, fun _ => elsewhere⟩, ?_⟩
  refine contends_ret (steady_and steady (ofFile [])) ⟨?_, ?_⟩ fun _ done => done
  · exact steady.settled thread before after wf held life elsewhere also
  · intro worker named
    refine ⟨now.known, fun row present mine => ?_⟩
    -- every row of the file was on the list, and every object on it is confirmed
    rw [shards] at present
    obtain ⟨earlier, stays⟩ := List.mem_filter.mp present
    obtain ⟨one, inside, rfl⟩ := List.mem_map.mp ((whole worker named).2 row earlier mine)
    exact absurd (every one inside) (of_decide_eq_true stays)

theorem deleteFile_contends (userId fileId : Uuid) (ipAddress : Option Text) :
    Contends platform race thread (fun _ _ => True) (Routers.deleteFile userId fileId ipAddress)
      state := by
  apply contends_read (.selectFiles _) trivial trivial_steady trivial
  intro shared rows _ _ _ _
  dsimp only [Prog.ret_bind, Prog.pure_eq]
  cases rows.head? with
  | none => exact contends_ret trivial_steady trivial fun _ held => held
  | some file =>
      apply contends_read .now trivial trivial_steady trivial
      intro shared deletedAt _ _ _ _
      apply layer_op trivial_steady.stable trivial
      intro before answer after wf held _ done life may
      have shards : after.db.shards = before.db.shards := by
        simp only [exec, Option.map_eq_some_iff] at done
        obtain ⟨db, committed, rfl⟩ := done
        simp only [record, Db.commit, Db.write, Option.bind_eq_some_iff,
          Option.ite_none_right_eq_some, Option.some.injEq] at committed
        obtain ⟨_, ⟨-, rfl⟩, _, ⟨-, rfl⟩, rfl⟩ := committed
        rfl
      obtain ⟨now, elsewhere⟩ : race.Held after ∧ Elsewhere before after := by
        apply commit_elsewhere held done life (by simp [newIds, record])
        · rw [shards]
          exact fun _ member => member
        · rw [shards]
          exact fun _ member => Or.inl member
      refine ⟨⟨now, elsewhere.kept, fun _ => elsewhere⟩, ?_⟩
      apply safe_map
      apply safe_map
      exact safe_mono (removeDeletedShards_contends file trivial_steady trivial)
        fun _ _ _ _ => trivial

theorem tidy_settled (but : List (Uuid × Uuid)) : Settled race (race.Tidy but) :=
  fun _ _ _ wf held _ elsewhere tidy => tidy_elsewhere wf held elsewhere tidy

theorem gone_settled : Settled race (Gone race.fileId) :=
  fun _ _ _ _ _ life _ gone => life_gone life gone

/-- Some row of the file may be left only while the file is still on the list. -/
theorem gcPendingFiles_contends (files : List File) (tidy : race.Tidy [] state)
    (listed : race.Within [] state ∨ ∃ file ∈ files, file.id = race.fileId) :
    Contends platform race .worker (fun _ later => race.Tidy [] later ∧ race.Within [] later)
      (gcPendingFiles files) state := by
  induction files generalizing state with
  | nil =>
      have within : race.Within [] state := listed.resolve_right (by simp)
      exact contends_ret (steady_and (settled_steady (tidy_settled []))
        (settled_steady (within_settled []))) ⟨tidy, within⟩ fun _ held => held
  | cons file rest ih =>
      by_cases mine : file.id = race.fileId
      · apply safe_bind (removeDeletedShards_contends file (settled_steady (tidy_settled [])) tidy)
        intro count later _ held
        exact ih held.1 (Or.inl (held.2 rfl mine))
      · -- the pass over another file leaves it as it is
        by_cases empty : race.Within [] state
        · apply safe_bind (removeDeletedShards_contends file (steady_and
            (settled_steady (tidy_settled [])) (settled_steady (within_settled []))) ⟨tidy, empty⟩)
          intro count later _ held
          exact ih held.1.1 (Or.inl held.1.2)
        · obtain ⟨other, member, named⟩ := listed.resolve_left empty
          have later : other ∈ rest := by
            rcases List.mem_cons.mp member with rfl | later
            · exact absurd named mine
            · exact later
          apply safe_bind
            (removeDeletedShards_contends file (settled_steady (tidy_settled [])) tidy)
          intro count after _ held
          exact ih held.1 (Or.inr ⟨other, later, named⟩)

theorem gcDeletedFiles_contends (tidy : race.Tidy [] state) (gone : Gone race.fileId state) :
    Contends platform race .worker (fun _ later => race.Tidy [] later ∧ race.Within [] later)
      gcDeletedFiles state := by
  apply contends_read (.selectFiles _) trivial (steady_and (settled_steady (tidy_settled []))
    (settled_steady gone_settled)) ⟨tidy, gone⟩
  intro shared pending wf held facts done
  obtain ⟨order, -⟩ := Option.ite_none_right_eq_some.mp done
  apply gcPendingFiles_contends pending facts.1
  by_cases rest : ∃ row ∈ shared.db.shards, row.fileId = race.fileId
  · right
    obtain ⟨row, present, mine⟩ := rest
    obtain ⟨file, standing, named⟩ := List.mem_map.mp (wf.shards_owned row present)
    refine ⟨file, order.mem_iff.mpr (List.mem_filter.mpr ⟨standing, ?_⟩), named.trans mine⟩
    have deleted := facts.2.2 file standing (named.trans mine)
    have some : shared.db.shards.any (·.fileId = file.id) = true :=
      List.any_eq_true.mpr ⟨row, present, by simp [named]⟩
    simp [deleted, some]
  · exact Or.inl ⟨held.known, fun row present mine => absurd ⟨row, present, mine⟩ rest⟩

end Passes

/-! ### The repair -/

section Repair
variable {platform : Platform} {race : Race} {state : Shared}

/-- An id drawn for a copy: no row, no request and no object has it yet. -/
structure Unborn (newId : Uuid) (shared : Shared) : Prop where
  unused : newId ∉ used shared
  unsent : ∀ flight ∈ shared.flights, flight.request.shard ≠ some newId
  absent : ∀ node, shared.objects node newId = none

/-- The PUT of the copy is the only request for it, and an object under its id is what
its node has acknowledged. -/
structure Sent (handle : Nat) (node newId : Uuid) (shared : Shared) : Prop where
  unused : newId ∉ used shared
  only : ∀ (index : Nat) (flight : Flight Tid), shared.flights[index]? = some flight →
    flight.request.shard = some newId → index = handle
  there : ∃ flight data, shared.flights[handle]? = some flight ∧ flight.node = node ∧
    flight.request = .put newId data
  stored : ∀ place, shared.objects place newId ≠ none → place = node ∧
    ∃ flight response, shared.flights[handle]? = some flight ∧
      flight.state = .answered response ∧ response.status = 201

def Answered (handle : Nat) (response : HttpResponse) (shared : Shared) : Prop :=
  ∃ flight, shared.flights[handle]? = some flight ∧ flight.state = .answered response

theorem unborn_settled (newId : Uuid) : Settled race (Unborn newId) := by
  intro other before after _ _ life elsewhere unborn
  constructor
  case unused => exact fun member => unborn.unused (elsewhere.old newId member)
  case unsent =>
    intro flight member names
    obtain ⟨index, inside, rfl⟩ := List.getElem_of_mem member
    rcases elsewhere.added index _ (List.getElem?_eq_getElem inside) with
      ⟨old, there, same, -⟩ | ⟨-, known⟩
    · simp only [sent, Prod.mk.injEq] at same
      rw [same.2.2] at names
      exact unborn.unsent old (List.mem_of_getElem? there) names
    · exact unborn.unused (known newId names)
  case absent =>
    intro node
    by_contra present
    rcases elsewhere.objects node newId present with
      old | ⟨index, old, flight, data, response, found, -, -, asked, -⟩
    · exact old (unborn.absent node)
    · exact unborn.unsent old (List.mem_of_getElem? found) (by rw [asked]; rfl)

theorem sent_settled (handle : Nat) (node newId : Uuid) :
    Settled race (Sent handle node newId) := by
  intro other before after _ _ life elsewhere start
  constructor
  case unused => exact fun member => start.unused (elsewhere.old newId member)
  case only =>
    intro index flight found names
    rcases elsewhere.added index flight found with ⟨old, there, same, -⟩ | ⟨-, known⟩
    · simp only [sent, Prod.mk.injEq] at same
      rw [same.2.2] at names
      exact start.only index old there names
    · exact absurd (known newId names) start.unused
  case there =>
    obtain ⟨flight, data, found, place, asked⟩ := start.there
    obtain ⟨later, there, same, -⟩ := elsewhere.kept handle flight found
    simp only [sent, Prod.mk.injEq] at same
    exact ⟨later, data, there, same.2.1.trans place, same.2.2.trans asked⟩
  case stored =>
    intro place present
    rcases elsewhere.objects place newId present with
      old | ⟨index, old, flight, data, response, found, -, here, asked, there, answered, created⟩
    · obtain ⟨same, flight, response, found, answered, created⟩ := start.stored place old
      obtain ⟨later, there, -, state⟩ := elsewhere.kept handle flight found
      refine ⟨same, later, response, there, ?_, created⟩
      rcases state with still | pending
      · exact still.trans answered
      · rw [answered] at pending
        cases pending
    · obtain rfl := start.only index old found (by rw [asked]; rfl)
      obtain ⟨flight', data', found', place', -⟩ := start.there
      obtain rfl := Option.some.inj (found.symm.trans found')
      exact ⟨here.symm.trans place', flight, response, there, answered, created⟩

theorem answered_firm (handle : Nat) (response : HttpResponse) :
    Firm (Answered handle response) := by
  rintro other before after life kept ⟨flight, found, answered⟩
  obtain ⟨later, there, -, state⟩ := kept handle flight found
  refine ⟨later, there, ?_⟩
  rcases state with still | pending
  · exact still.trans answered
  · rw [answered] at pending
    cases pending

theorem answered_putting {handle : Nat} {node newId place : Uuid} {response : HttpResponse}
    {shared : Shared} (start : Sent handle node newId shared)
    (answered : Answered handle response shared) : ¬ Putting shared place newId := by
  rintro ⟨flight, member, pending, -, data, asked⟩
  obtain ⟨index, inside, rfl⟩ := List.getElem_of_mem member
  have found := List.getElem?_eq_getElem inside
  obtain rfl := start.only index _ found (by rw [asked]; rfl)
  obtain ⟨other, there, state⟩ := answered
  obtain rfl := Option.some.inj (there.symm.trans found)
  rw [pending] at state
  cases state

/-- A PUT that was refused has left nothing. -/
theorem refused_tidy {handle : Nat} {node newId : Uuid} {response : HttpResponse} {shared : Shared}
    (start : Sent handle node newId shared) (answered : Answered handle response shared)
    (refused : response.status ≠ 201) (tidy : race.Tidy [(node, newId)] shared) :
    race.Tidy [] shared := by
  intro place id own there
  rcases tidy place id own there with named | excepted
  · exact Or.inl named
  · obtain ⟨rfl, rfl⟩ := Prod.mk.inj (List.mem_singleton.mp excepted)
    rcases there with present | putting
    · obtain ⟨-, flight, other, found, state, created⟩ := start.stored place present
      obtain ⟨same, there, told⟩ := answered
      obtain rfl := Option.some.inj (there.symm.trans found)
      rw [told] at state
      cases state
      exact absurd created refused
    · exact absurd putting (answered_putting start answered)

/-- A DELETE that was answered has left nothing either. -/
theorem deleted_tidy {node id : Uuid} {shared : Shared} (held : race.Held shared)
    (listed : id ∈ used shared) (deleted : race.Deleted node id shared)
    (tidy : race.Tidy [(node, id)] shared) : race.Tidy [] shared := by
  intro place other own there
  rcases tidy place other own there with named | excepted
  · exact Or.inl named
  · obtain ⟨rfl, rfl⟩ := Prod.mk.inj (List.mem_singleton.mp excepted)
    rcases there with present | putting
    · exact absurd (deleted_absent held deleted) present
    · exact absurd listed (held.puts place other putting)

section Moves
variable {before after : Shared}

theorem draw_held {newId : Uuid} (wf : WellFormed before) (held : race.Held before)
    (done : exec .worker before .uuid4 newId = some after) (life : Life .worker before after)
    (tidy : race.Tidy [] before) :
    race.Held after ∧ race.Tidy [] after ∧ Unborn newId after := by
  obtain ⟨fresh, same⟩ := Option.ite_none_right_eq_some.mp done
  cases same
  have unborn : Unborn newId { before with issued := (.worker, newId) :: before.issued } := by
    constructor
    · exact fun member => fresh (wf.used_issued newId member)
    · exact fun flight member names => fresh (held.named flight member newId names)
    · intro node
      by_contra present
      exact fresh (held.stored node newId present)
  refine ⟨exec_held done life held.puts nofun nofun held, ?_, unborn⟩
  intro node id own there
  by_cases new : id = newId
  · subst new
    rcases there with present | ⟨flight, member, -, -, data, asked⟩
    · exact absurd (unborn.absent node) present
    · exact absurd (by rw [asked]; rfl) (unborn.unsent flight member)
  · refine tidy node id (own.imp_right fun drawn => ⟨?_, drawn.2⟩) there
    rcases List.mem_cons.mp drawn.1 with same | old
    · exact absurd (congrArg Prod.snd same) new
    · exact old

theorem put_putting {node newId : Uuid} {data : Bytes} {handles : List Nat}
    (done : exec .worker before (.send [(node, .put newId data)]) handles = some after)
    {place id : Uuid} (putting : Putting after place id) :
    Putting before place id ∨ (place, id) = (node, newId) := by
  obtain ⟨flight, member, pending, here, other, asked⟩ := putting
  obtain ⟨index, inside, rfl⟩ := List.getElem_of_mem member
  rcases exec_flight done (List.getElem?_eq_getElem inside) with
    ⟨old, there, told⟩ | ⟨-, one, launched, fresh⟩
  · have carried := told.sent
    simp only [sent, Prod.mk.injEq] at carried
    exact Or.inl ⟨old, List.mem_of_getElem? there, told.state.symm.trans pending,
      carried.2.1.symm.trans here, other, carried.2.2.symm.trans asked⟩
  · rw [fresh] at here asked
    rw [List.mem_singleton.mp launched] at here asked
    cases asked
    exact Or.inr (Prod.ext here.symm rfl)

theorem put_tidy {node newId : Uuid} {data : Bytes} {handles : List Nat}
    (done : exec .worker before (.send [(node, .put newId data)]) handles = some after)
    (tidy : race.Tidy [] before) : race.Tidy [(node, newId)] after := by
  have rows : after.db = before.db := exec_db rfl done
  have issued : after.issued = before.issued := (exec_quiet (by trivial) done).issued
  intro place id own there
  rw [exec_objects done] at there
  have mine : race.Own before id := by
    unfold Race.Own at own ⊢
    rw [← issued]
    exact own
  have earlier : before.objects place id ≠ none ∨ Putting before place id →
      race.Named after place id ∨ (place, id) ∈ [(node, newId)] := by
    intro old
    rcases tidy place id mine old with named | none
    · left
      unfold Race.Named
      rw [rows]
      exact named
    · exact absurd none List.not_mem_nil
  rcases there with present | wire
  · exact earlier (Or.inl present)
  · rcases put_putting done wire with old | new
    · exact earlier (Or.inr old)
    · exact Or.inr (List.mem_singleton.mpr new)

theorem put_sent {node newId : Uuid} {data : Bytes} {handles : List Nat}
    (done : exec .worker before (.send [(node, .put newId data)]) handles = some after)
    (unborn : Unborn newId before) : Sent before.flights.length node newId after := by
  constructor
  case unused =>
    obtain ⟨-, taken⟩ := Option.ite_none_right_eq_some.mp done
    cases taken
    exact unborn.unused
  case only =>
    intro index flight found names
    rcases exec_flight done found with ⟨old, there, told⟩ | ⟨late, -⟩
    · have carried := told.sent
      simp only [sent, Prod.mk.injEq] at carried
      rw [carried.2.2] at names
      exact absurd names (unborn.unsent old (List.mem_of_getElem? there))
    · have inside := (List.getElem?_eq_some_iff.mp found).1
      have grown := congrArg List.length (exec_wire done)
      simp only [wire, sends, List.length_map, List.length_append, List.length_cons,
        List.length_nil] at grown
      omega
  case there =>
    obtain ⟨-, on⟩ := send_onWire done
    obtain ⟨flight, found, carried⟩ := on 0 (node, .put newId data) rfl
    simp only [sent, Prod.mk.injEq] at carried
    exact ⟨flight, data, found, carried.2.1, carried.2.2⟩
  case stored =>
    intro place present
    rw [exec_objects done] at present
    exact absurd (unborn.absent place) present

theorem put_held {node newId : Uuid} {data : Bytes} {handles : List Nat} (held : race.Held before)
    (done : exec .worker before (.send [(node, .put newId data)]) handles = some after)
    (life : Life .worker before after) (known : Known before newId)
    (unborn : Unborn newId before) : race.Held after := by
  have same : used after = used before := by
    obtain ⟨-, taken⟩ := Option.ite_none_right_eq_some.mp done
    cases taken
    rfl
  apply exec_held done life _ _ _ held
  · intro place id wire
    rw [same]
    rcases put_putting done wire with old | new
    · exact held.puts place id old
    · cases new
      exact unborn.unused
  · intro one member id names
    rw [List.mem_singleton.mp member] at names
    cases names
    exact known
  · intro one member id asked
    rw [List.mem_singleton.mp member] at asked
    cases asked

theorem repoint_shards {old new node : Uuid}
    (done : exec .worker before (.commit [.repoint old new node]) () = some after) :
    after.db.shards = before.db.shards.map (repointShard old new node) ∧
      after.flights = before.flights ∧ after.issued = before.issued := by
  obtain ⟨db, committed, rfl⟩ := Option.map_eq_some_iff.mp done
  simp only [Db.commit, Db.write, Option.bind_eq_some_iff, Option.ite_none_right_eq_some,
    Option.some.injEq] at committed
  obtain ⟨_, ⟨-, rfl⟩, rfl⟩ := committed
  exact ⟨rfl, rfl, rfl⟩

/-- The row now names the copy, and the old object is the one without a row. -/
theorem repoint_held {shard : Shard} {handle : Nat} {newId node : Uuid} {response : HttpResponse}
    (held : race.Held before)
    (done : exec .worker before (.commit [.repoint shard.id newId node]) () = some after)
    (life : Life .worker before after) (read : Read shard before)
    (mine : shard.fileId = race.fileId) (found : ∃ row ∈ before.db.shards, row.id = shard.id)
    (start : Sent handle node newId before) (answered : Answered handle response before)
    (tidy : race.Tidy [(node, newId)] before) :
    race.Held after ∧ race.Tidy [(shard.nodeId, shard.id)] after := by
  obtain ⟨shards, flights, issued⟩ := repoint_shards done
  have wire : ∀ place id, Putting after place id → Putting before place id := by
    intro place id putting
    unfold Putting at putting
    rw [flights] at putting
    exact putting
  have moved : shard ∈ before.db.shards := by
    obtain ⟨row, present, named⟩ := found
    exact read.2 row present named ▸ present
  refine ⟨exec_held done life ?_ nofun nofun held, ?_⟩
  · intro place id putting
    rw [used_commit done]
    intro member
    rcases List.mem_append.mp member with old | new
    · exact held.puts place id (wire place id putting) old
    · obtain rfl : id = newId := by simpa [newIds] using new
      exact answered_putting start answered (wire place id putting)
  · intro place id own there
    rw [exec_objects done] at there
    have before_own : race.Own before id := by
      unfold Race.Own at own ⊢
      rw [← issued]
      exact own
    rcases tidy place id before_own (there.imp_right (wire place id)) with
      ⟨row, present, ours, rfl, rfl⟩ | excepted
    · by_cases hit : row.id = shard.id
      · obtain rfl := read.2 row present hit
        exact Or.inr List.mem_cons_self
      · left
        refine ⟨row, ?_, ours, rfl, rfl⟩
        rw [shards]
        exact List.mem_map.mpr ⟨row, present, by simp [repointShard, hit]⟩
    · obtain ⟨rfl, rfl⟩ := Prod.mk.inj (List.mem_singleton.mp excepted)
      left
      refine ⟨repointShard shard.id id place shard, ?_, ?_, ?_, ?_⟩
      · rw [shards]
        exact List.mem_map_of_mem moved
      · simpa [repointShard] using mine
      · simp [repointShard]
      · simp [repointShard]

end Moves

theorem tidy_but (but : List (Uuid × Uuid)) (rows : List Shard) :
    Steady race .worker fun shared => race.Tidy but shared ∧ ∀ row ∈ rows, Read row shared :=
  steady_and (settled_steady (tidy_settled but)) (firm_steady (reads_firm rows))

theorem tidy_done {out : Nat} (tidy : race.Tidy [] state) :
    Contends platform race .worker (fun _ later => race.Tidy [] later) (.ret out) state :=
  contends_ret (settled_steady (tidy_settled [])) tidy fun _ held => held

theorem put_contends {newId node : Uuid} {data : Bytes} {rows : List Shard} {Out : Type}
    {result : Out → Shared → Prop} {next : Reply → Async Out}
    (tidy : race.Tidy [] state) (read : ∀ row ∈ rows, Read row state) (unborn : Unborn newId state)
    (drawn : (Tid.worker, newId) ∈ state.issued)
    (rest : ∀ handle response later, race.Tidy [(node, newId)] later →
      (∀ row ∈ rows, Read row later) → Sent handle node newId later →
      Answered handle response later →
        Contends platform race .worker result (next (some response)) later) :
    Contends platform race .worker result ((call node (.put newId data)).bind next) state := by
  have known : Steady race .worker fun shared => Known shared newId := by
    apply firm_steady
    intro other before after life _ known
    obtain ⟨entry, member, rfl⟩ := List.mem_map.mp known
    exact List.mem_map_of_mem (life_issued life member)
  apply layer_op (steady_and (tidy_but [] rows)
    (steady_and (settled_steady (unborn_settled newId)) known)).stable
    ⟨⟨tidy, read⟩, unborn, List.mem_map_of_mem drawn⟩
  intro before handles after wf held facts done life may
  obtain ⟨⟨tidy, read⟩, unborn, known⟩ := facts
  have now := put_held held done life known unborn
  have tidy := put_tidy done tidy
  have start := put_sent done unborn
  obtain ⟨rfl, -⟩ := send_onWire done
  refine ⟨⟨now, exec_remembered done, fun other => absurd rfl other⟩, ?_⟩
  have read : ∀ row ∈ rows, Read row after :=
    reads_firm rows .worker before after life (exec_remembered done) read
  apply contends_calm (.await [before.flights.length]) trivial
    (steady_and (tidy_but [(node, newId)] rows) (settled_steady (sent_settled _ node newId)))
    ⟨⟨tidy, read⟩, start⟩ (fun _ _ _ => nofun)
  intro first replies last _ _ _ _ both done told
  obtain ⟨flights, replied, rfl⟩ := Option.map_eq_some_iff.mp done
  obtain ⟨reply, flight, rfl, found, may, rfl⟩ := awaitReplies_one replied
  cases reply with
  | none => exact absurd List.mem_cons_self told
  | some response =>
      have inside := (List.getElem?_eq_some_iff.mp found).1
      refine rest _ response _ both.1.1 both.1.2 both.2
        ⟨{ flight with reply := some (some response) }, ?_, of_decide_eq_true may⟩
      simp [inside]

/-- The DELETE of an object that has lost its row. -/
theorem delete_contends {node id : Uuid} {rows : List Shard} {Out : Type}
    {result : Out → Shared → Prop} {next : Reply → Async Out} (tidy : race.Tidy [(node, id)] state)
    (read : ∀ row ∈ rows, Read row state) (listed : id ∈ used state)
    (rest : ∀ reply later, race.Tidy [] later → (∀ row ∈ rows, Read row later) →
      Contends platform race .worker result (next reply) later) :
    Contends platform race .worker result ((call node (.delete id)).bind next) state := by
  have known : Steady race .worker fun shared => id ∈ used shared :=
    firm_steady fun _ _ _ life _ known => used_mono life known
  change Contends platform race .worker result
    ((gather [(node, .delete id)]).bind fun replies => next (replies.headD none)) state
  apply contends_gather (steady_and (tidy_but [(node, id)] rows) known) ⟨⟨tidy, read⟩, listed⟩
  · intro shared _ facts one member
    rw [List.mem_singleton.mp member]
    refine ⟨nofun, ?_⟩
    rintro other ⟨⟩
    exact facts.2
  · intro replies later held facts told heard
    refine rest _ later (deleted_tidy held facts.2 ?_ facts.1.1) facts.1.2
    have answered : 0 < replies.length := by
      rw [heard.length]
      exact Nat.zero_lt_one
    cases reply : replies[0] with
    | none => exact absurd (reply ▸ List.getElem_mem answered) told
    | some response =>
        obtain ⟨handle, flight, late, there, place, request, state⟩ := heard.answers 0 _ response
          rfl (List.getElem?_eq_some_iff.mpr ⟨answered, reply⟩)
        exact ⟨handle, flight, response, late, there, place, request, state⟩

theorem repairShards_contends (work : List ((Shard × StorageNode) × Bytes × StorageNode))
    (mine : ∀ one ∈ work, one.1.1.fileId = race.fileId ∧ one.1.2.id = one.1.1.nodeId)
    (tidy : race.Tidy [] state) (read : ∀ row ∈ work.map (·.1.1), Read row state) :
    Contends platform race .worker (fun _ later => race.Tidy [] later)
      (repairShards platform work) state := by
  induction work generalizing state with
  | nil => exact tidy_done tidy
  | cons one rest ih =>
      obtain ⟨⟨shard, oldNode⟩, block, target⟩ := one
      obtain ⟨ours, place⟩ := mine _ List.mem_cons_self
      dsimp only at ours place
      rw [List.map_cons] at read
      have further : ∀ {shared}, race.Tidy [] shared →
          (∀ row ∈ shard :: rest.map (·.1.1), Read row shared) →
          Contends platform race .worker (fun _ later => race.Tidy [] later)
            (repairShards platform rest) shared :=
        fun tidy read => ih (fun one member => mine one (List.mem_cons_of_mem _ member)) tidy
          fun row member => read row (List.mem_cons_of_mem _ member)
      unfold repairShards
      split
      · exact further tidy read
      apply layer_op (tidy_but [] (shard :: rest.map (·.1.1))).stable ⟨tidy, read⟩
      intro before newId after wf held facts done life may
      obtain ⟨now, tidy, unborn⟩ := draw_held wf held done life facts.1
      have remembered := exec_remembered done
      refine ⟨⟨now, remembered, fun other => absurd rfl other⟩, ?_⟩
      have drawn : (Tid.worker, newId) ∈ after.issued := by
        obtain ⟨-, same⟩ := Option.ite_none_right_eq_some.mp done
        cases same
        exact List.mem_cons_self
      apply put_contends tidy (reads_firm _ .worker before after life remembered facts.2) unborn
        drawn
      intro handle response later tidy read start answered
      split
      · -- acknowledged: the row is repointed, if it is still there
        apply layer_op (steady_and (tidy_but [(target.id, newId)] (shard :: rest.map (·.1.1)))
          (steady_and (settled_steady (sent_settled handle target.id newId))
            (firm_steady (answered_firm handle response)))).stable ⟨⟨tidy, read⟩, start, answered⟩
        intro first answer last wf held facts done life may
        obtain ⟨⟨tidy, read⟩, start, answered⟩ := facts
        have here := read shard List.mem_cons_self
        obtain ⟨now, tidy⟩ := repoint_held held done life here ours
          (may.1.2 shard.id newId target.id List.mem_cons_self) start answered tidy
        have remembered := exec_remembered done
        refine ⟨⟨now, remembered, fun other => absurd rfl other⟩, ?_⟩
        rw [← place] at tidy
        apply delete_contends tidy (reads_firm _ .worker first last life remembered read)
          (used_mono life here.1)
        intro reply final tidy read
        exact safe_map (further tidy read)
      · rename_i failed
        have refused : response.status ≠ 201 :=
          fun created => failed (succeeded_put.mpr ⟨response, rfl, created⟩)
        exact further (refused_tidy start answered refused tidy) read

theorem fetchRounds_contends {holds : Shared → Prop} (steady : Steady race .worker holds)
    (k fuel : Nat) (collected : Erasure.Blocks) (remaining : List (Shard × StorageNode))
    (start : holds state) (known : ∀ row ∈ remaining, row.1.id ∈ used state) :
    Contends platform race .worker (fun _ later => holds later)
      (fetchRounds platform k fuel collected remaining) state := by
  induction fuel generalizing state collected remaining with
  | zero => exact contends_ret steady start fun _ held => held
  | succ fuel ih =>
      unfold fetchRounds
      split
      · have listed : Steady race .worker fun shared => ∀ row ∈ remaining, row.1.id ∈ used shared :=
          firm_steady fun _ _ _ life _ known row member => used_mono life (known row member)
        apply contends_gather (steady_and steady listed) ⟨start, known⟩
        · rintro shared - both one member
          obtain ⟨row, inside, rfl⟩ := List.mem_map.mp member
          constructor
          · intro id data same
            cases same
          · rintro id ⟨⟩
            exact both.2 row (List.mem_of_mem_take inside)
        · intro replies later _ both _ _
          exact ih _ _ both.1 fun row member => both.2 row (List.mem_of_mem_drop member)
      · exact contends_ret steady start fun _ held => held

theorem repairFile_contends (bad : List Uuid) (tidy : race.Tidy [] state) :
    Contends platform race .worker (fun _ later => race.Tidy [] later)
      (repairFile platform race.fileId bad) state := by
  have done : ∀ {out : Except Erasure.ErasureError Nat} {shared : Shared}, race.Tidy [] shared →
      Contends platform race .worker (fun _ later => race.Tidy [] later) (.ret out) shared :=
    fun tidy => contends_ret (settled_steady (tidy_settled [])) tidy fun _ held => held
  apply contends_read (.selectFiles _) trivial (settled_steady (tidy_settled [])) tidy
  intro shared rows _ _ tidy _
  dsimp only [Prog.ret_bind, Prog.pure_eq]
  cases rows.head? with
  | none => exact done tidy
  | some file =>
      dsimp only
      split
      · exact done tidy
      apply contends_read (.selectPlaced _) trivial (settled_steady (tidy_settled [])) tidy
      intro shared placed wf held tidy selected
      obtain ⟨order, -⟩ := Option.ite_none_right_eq_some.mp selected
      have joined : ∀ one ∈ placed, one.1 ∈ shared.db.shards ∧ one.1.fileId = race.fileId ∧
          one.2.id = one.1.nodeId := by
        intro one member
        obtain ⟨inside, mine⟩ := List.mem_filter.mp (order.mem_iff.mp member)
        obtain ⟨stored, -, node⟩ := placed_shard inside
        exact ⟨stored, of_decide_eq_true mine, node⟩
      have read : ∀ row ∈ placed.map Prod.fst, Read row shared := by
        intro row member
        obtain ⟨one, inside, rfl⟩ := List.mem_map.mp member
        have stored := (joined one inside).1
        exact ⟨wf.shards_used one.1 stored, fun other present same =>
          List.inj_on_of_nodup_map wf.shards_nodup present stored same⟩
      have steady := @tidy_but race [] (placed.map Prod.fst)
      apply contends_read (.selectPlaced _) trivial steady ⟨tidy, read⟩
      intro shared found wf _ facts selected
      obtain ⟨order, -⟩ := Option.ite_none_right_eq_some.mp selected
      apply safe_bind (fetchRounds_contends steady file.dataShards _ _ _ facts ?_)
      · intro blocks later _ facts
        split
        · exact done facts.1
        apply contends_read (.selectNodes _) trivial steady facts
        intro shared healthy _ _ facts _
        apply contends_read (.shuffle _) trivial steady facts
        intro shared targets _ _ facts _
        split
        · exact done facts.1
        · apply safe_map
          apply repairShards_contends _ _ facts.1
          · intro row member
            obtain ⟨one, inside, rfl⟩ := List.mem_map.mp member
            have listed := (List.mem_filter.mp (List.of_mem_zip inside).1).1
            exact facts.2 one.1.1 (List.mem_map_of_mem listed)
          · intro one member
            exact (joined one.1 (List.mem_filter.mp (List.of_mem_zip member).1).1).2
      · intro row member
        have sorted := (List.perm_insertionSort _ _).mem_iff.mp member
        obtain ⟨one, inside, rfl⟩ := List.mem_map.mp (List.mem_filter.mp sorted).1
        exact wf.shards_used one.1
          (placed_shard (List.mem_filter.mp (order.mem_iff.mp inside)).1).1

theorem program_contends (thread : Tid) (job : Job) (held : race.Held state)
    (may : race.layer.allowed state (.start thread job)) :
    Contends platform race thread (race.post thread job) (program platform job) state := by
  cases thread with
  | worker =>
      have tidy : race.Tidy [] state := may.2 job rfl
      rcases may.1.1 with ⟨bad, rfl⟩ | ⟨rfl, deleted⟩
      · apply safe_map
        exact safe_mono (repairFile_contends bad tidy) fun _ _ _ tidy => ⟨tidy, nofun⟩
      · apply safe_map
        exact safe_mono (gcDeletedFiles_contends tidy ⟨held.known, deleted⟩)
          fun _ _ _ both => ⟨both.1, fun _ => within_none both.2⟩
  | api handle =>
      obtain ⟨userId, ipAddress, rfl⟩ := may.1.1
      exact safe_map (deleteFile_contends userId race.fileId ipAddress)

end Repair

/-! ### Runs of the race -/

/-- Where the race starts: no job is running, the file stands, no block is on the wire,
objects have ids the service has drawn, and those of the file are where its rows say. -/
structure Race.Ready (race : Race) (config : ServiceConfig) : Prop where
  start : config.shared = race.start
  idle : ∀ thread job rest, config.threads thread ≠ .running job rest
  file : ∃ file ∈ race.start.db.files, file.id = race.fileId
  stored : ∀ node id, race.start.objects node id ≠ none → Known race.start id
  puts : ∀ node id, ¬ Putting race.start node id
  placed : ∀ row ∈ race.start.db.shardsOf race.fileId, ∀ node,
    race.start.objects node row.id ≠ none → row.nodeId = node

def Race.runs (race : Race) (config : ServiceConfig) (label : ServiceLabel) : Prop :=
  race.reliable config.shared label ∧ finds config.shared label

section Runs
variable {platform : Platform} {race : Race} {clock : Nat} {earlier labels : List ServiceLabel}
  {start config : ServiceConfig}

theorem ready_held (reached : Run (Step (service platform)) (deployed clock) earlier start)
    (ready : race.Ready start) : race.Held race.start := by
  have wf := (service_safe reached).inv
  have recorded := run_recorded reached
  rw [ready.start] at wf
  constructor
  case stored => exact ready.stored
  case named =>
    have named := recorded.named
    rw [ready.start] at named
    exact named
  case puts => exact fun node id putting => absurd putting (ready.puts node id)
  case deletes =>
    intro index flight id late found
    have inside := (List.getElem?_eq_some_iff.mp found).1
    exact absurd inside (Nat.not_lt.mpr late)
  case length => exact le_refl _
  case known =>
    obtain ⟨file, standing, named⟩ := ready.file
    exact named ▸ wf.files_used file standing

theorem ready_tidy (ready : race.Ready start) : race.Tidy [] race.start := by
  intro node id own there
  have present := there.resolve_right (ready.puts node id)
  rcases own with listed | ⟨drawn, new⟩
  · obtain ⟨row, member, rfl⟩ := List.mem_map.mp listed
    obtain ⟨inside, mine⟩ := List.mem_filter.mp member
    exact Or.inl ⟨row, inside, of_decide_eq_true mine, rfl, ready.placed row member node present⟩
  · exact absurd (List.mem_map_of_mem drawn) new

/-- Whenever the worker is between two jobs. -/
def Race.Quiet (race : Race) (config : ServiceConfig) : Prop :=
  (∀ job rest, config.threads .worker ≠ .running job rest) → race.Tidy [] config.shared

theorem step_quiet {before after : ServiceConfig} {label : ServiceLabel}
    (wf : WellFormed before.shared) (held : race.Held before.shared)
    (taken : Step (service platform) before label after) (may : race.runs before label)
    (kept : Kept (race.layer.contract race.post) before label after) (quiet : race.Quiet before) :
    race.Quiet after := by
  intro resting
  cases taken with
  | @start thread job idle starts =>
      by_cases worker : thread = .worker
      · exact absurd ((threads_set _ _ _ _).trans (if_pos worker.symm)) (resting _ _)
      · refine quiet fun other rest running => resting other rest ?_
        exact (threads_set _ _ _ _).trans ((if_neg (Ne.symm worker)).trans running)
  | @act thread job request next answer shared at_op done =>
      by_cases worker : thread = .worker
      · exact absurd ((threads_set _ _ _ _).trans (if_pos worker.symm)) (resting _ _)
      · obtain ⟨-, -, -, elsewhere⟩ := kept
        refine tidy_elsewhere wf held (elsewhere worker) (quiet fun other rest running => ?_)
        exact resting other rest ((threads_set _ _ _ _).trans
          ((if_neg (Ne.symm worker)).trans running))
  | @fail thread _ _ _ at_op =>
      have other : thread ≠ .worker := may.1
      refine quiet fun job rest running => resting job rest ?_
      exact (threads_set _ _ _ _).trans ((if_neg (Ne.symm other)).trans running)
  | @finish thread job out at_ret =>
      by_cases worker : thread = .worker
      · subst worker
        exact kept.2.1
      · refine quiet fun other rest running => resting other rest ?_
        exact (threads_set _ _ _ _).trans ((if_neg (Ne.symm worker)).trans running)
  | env done =>
      have tidy := quiet fun job rest running => resting job rest running
      exact tidy_elsewhere wf held (environment_elsewhere done may.1) tidy

theorem run_contends (reached : Run (Step (service platform)) (deployed clock) earlier start)
    (ready : race.Ready start)
    (run : Run (Guarded race.runs (Step (service platform))) start labels config) :
    AllSafe (service platform) (race.layer.contract race.post) config ∧ race.Quiet config := by
  have wf := (service_safe reached).inv
  have held := ready_held reached ready
  have tidy := ready_tidy ready
  rw [← ready.start] at held tidy
  induction run with
  | refl =>
      refine ⟨⟨⟨wf, held⟩, fun thread job rest running => ?_⟩, fun _ => tidy⟩
      exact absurd running (ready.idle thread job rest)
  | @next middle after labels label ran taken ih =>
      obtain ⟨all, quiet⟩ := ih
      obtain ⟨step, may⟩ := taken
      have lively := step_lively (run_append reached (guarded_run ran)) step
      have rested : ∀ job, label = .start .worker job → race.Tidy [] middle.shared := by
        rintro job rfl
        cases step with
        | start idle _ =>
            refine quiet fun other rest running => ?_
            rw [running] at idle
            exact idle.elim
      obtain ⟨safe, kept⟩ := step_safe (layer_composes (layer_sound platform race))
        (fun thread job shared inv _ may => program_contends thread job inv.2 may.2) all step
        ⟨lively, may, rested⟩
      exact ⟨safe, step_quiet all.inv.1 all.inv.2 step may kept quiet⟩

end Runs

/-- Once the file is deleted and a pass over deleted files has finished, nothing of it is
left: no row, and no object, be it one the repair has made. -/
theorem deletion_completes (platform : Platform) (clock : Nat) (earlier labels : List ServiceLabel)
    (start config last : ServiceConfig) (race : Race) (out : Outcome)
    (reached : Run (Step (service platform)) (deployed clock) earlier start)
    (ready : race.Ready start)
    (run : Run (Guarded race.runs (Step (service platform))) start labels config)
    (done : Step (service platform) config (.finish .worker .gcDeletedFiles out) last) :
    last.shared.db.shardsOf race.fileId = [] ∧
      ∀ id, race.Own last.shared id → ∀ node, last.shared.objects node id = none := by
  obtain ⟨all, -⟩ := run_contends reached ready run
  obtain ⟨-, same, tidy, swept⟩ := step_safe (layer_composes (layer_sound platform race))
    (fun thread job shared inv _ may => program_contends thread job inv.2 may.2) all done
    ⟨trivial, ⟨trivial, trivial⟩, nofun⟩
  rw [same]
  have none := swept rfl
  refine ⟨none, fun id own node => ?_⟩
  by_contra present
  rcases tidy node id own (Or.inl present) with ⟨row, stands, mine, -, -⟩ | excepted
  · have member : row ∈ config.shared.db.shardsOf race.fileId :=
      List.mem_filter.mpr ⟨stands, decide_eq_true mine⟩
    rw [none] at member
    exact List.not_mem_nil member
  · exact List.not_mem_nil excepted

/-! ### A delete between the copy and its row -/

theorem uploads_ready {platform : Platform} {clock : Nat} {labels : List ServiceLabel}
    {config : ServiceConfig} {fileId : Uuid}
    (run : Orphans.Ordered platform (deployed clock) labels config)
    (idle : ∀ thread job rest, config.threads thread ≠ .running job rest)
    (file : ∃ file ∈ config.shared.db.files, file.id = fileId)
    (silent : ∀ flight ∈ config.shared.flights, flight.state ≠ .pending) :
    (Race.mk fileId config.shared).Ready config := by
  have wf := (service_safe (guarded_run run)).inv
  have named := (Orphans.run_accounted run).objects
  constructor
  case start => rfl
  case idle => exact idle
  case file => exact file
  case stored =>
    intro node id present
    obtain ⟨row, member, rfl, -⟩ := named node id present
    exact wf.used_issued row.id (wf.shards_used row member)
  case puts =>
    rintro node id ⟨flight, member, pending, -⟩
    exact silent flight member pending
  case placed =>
    intro row member node present
    obtain ⟨other, inside, same, place⟩ := named node row.id present
    obtain rfl := List.inj_on_of_nodup_map wf.shards_nodup inside (List.mem_filter.mp member).1 same
    exact place

def paused (config : ServiceConfig) (thread : Tid) : Bool :=
  match config.threads thread with
  | .running _ _ => false
  | _ => true

def startedBy (threads : List Tid) : ServiceLabel → Bool
  | .start thread _ => thread ∈ threads
  | .fail _ => false
  | _ => true

def rested (threads : List Tid) (labels : List ServiceLabel) (config : ServiceConfig) : Bool :=
  labels.all (startedBy threads) && threads.all (paused config)

theorem rested_idle {platform : Platform} {clock : Nat} {threads : List Tid}
    {labels : List ServiceLabel} {config : ServiceConfig}
    (reached : Run (Step (service platform)) (deployed clock) labels config)
    (rests : rested threads labels config = true) :
    ∀ thread job rest, config.threads thread ≠ .running job rest := by
  intro thread job rest running
  obtain ⟨only, still⟩ := (Bool.and_eq_true _ _).mp rests
  have begun := run_started reached (fun _ _ => nofun) running
  have member : thread ∈ threads := of_decide_eq_true (List.all_eq_true.mp only _ begun)
  have pauses := List.all_eq_true.mp still thread member
  rw [paused, running] at pauses
  cases pauses

def atRest (labels : List ServiceLabel) (config : ServiceConfig) : Bool :=
  rested [.api 0] labels config && decide (1 ∈ config.shared.db.files.map (·.id) ∧
    ∀ flight ∈ config.shared.flights, flight.state ≠ .pending)

theorem race_starts (check : List ServiceLabel → ServiceConfig → Bool)
    (passed : (drive (service plain) Orphans.punctual (deployed 0) smallUploaded).any
      (fun driven => atRest driven.1 driven.2 && check driven.1 driven.2) = true) :
    ∃ labels start, Run (Step (service plain)) (deployed 0) labels start ∧
      (Race.mk 1 start.shared).Ready start ∧ check labels start = true := by
  obtain ⟨labels, start, run, checked⟩ := drive_guarded (service plain) Orphans.punctual
    (deployed 0) smallUploaded (fun labels start => atRest labels start && check labels start)
    passed
  obtain ⟨still, checked⟩ := (Bool.and_eq_true _ _).mp checked
  obtain ⟨rests, stands⟩ := (Bool.and_eq_true _ _).mp still
  obtain ⟨listed, silent⟩ := of_decide_eq_true stands
  have ordered : Orphans.Ordered plain (deployed 0) labels start :=
    run_mono (fun _ _ _ taken => ⟨taken.1, Orphans.punctual_sound _ _ taken.2⟩) run
  refine ⟨labels, start, guarded_run run, ?_, checked⟩
  exact uploads_ready ordered (rested_idle (guarded_run run) rests) (List.mem_map.mp listed) silent

def fair (config : ServiceConfig) : ServiceLabel → Bool
  | .start .worker (.repairFile fileId _) => fileId = 1
  | .start .worker .gcDeletedFiles => config.shared.db.files.all fun file =>
      decide (file.id = 1 → file.status = .deleted)
  | .start (.api _) (.deleteFile _ fileId _) => fileId = 1
  | .start _ _ | .fail _ => false
  | .act _ (.await _) replies => decide (none ∉ replies)
  | .env (.misreply _ _) | .env (.damage _ _ _) => false
  | _ => true

theorem fair_sound {race : Race} {config : ServiceConfig} {label : ServiceLabel}
    (one : race.fileId = 1) (may : fair config label = true) :
    race.reliable config.shared label := by
  cases label with
  | start thread job =>
      cases thread with
      | worker =>
          cases job with
          | repairFile fileId bad =>
              obtain rfl := of_decide_eq_true may
              exact Or.inl ⟨bad, by rw [one]⟩
          | gcDeletedFiles =>
              refine Or.inr ⟨rfl, fun file standing named => ?_⟩
              exact of_decide_eq_true (List.all_eq_true.mp may file standing) (named.trans one)
          | _ => cases may
      | api handle =>
          cases job with
          | deleteFile userId fileId ipAddress =>
              obtain rfl := of_decide_eq_true may
              exact ⟨userId, ipAddress, by rw [one]⟩
          | _ => cases may
  | act thread request answer =>
      cases request with
      | await handles =>
          have told : none ∉ (answer : List Reply) := of_decide_eq_true may
          exact told
      | _ => trivial
  | fail thread => cases may
  | finish thread job out => trivial
  | env event =>
      cases event with
      | misreply _ _ => cases may
      | damage _ _ _ => cases may
      | _ => trivial

def finding (config : ServiceConfig) (label : ServiceLabel) : Bool :=
  fair config label && match label with
  | .act _ (.commit writes) _ => writes.all fun
      | .repoint old _ _ => config.shared.db.shards.any fun row => row.id = old
      | _ => true
  | _ => true

theorem finding_sound {race : Race} {config : ServiceConfig} {label : ServiceLabel}
    (one : race.fileId = 1) (may : finding config label = true) : race.runs config label := by
  obtain ⟨reliable, found⟩ := (Bool.and_eq_true _ _).mp may
  refine ⟨fair_sound one reliable, ?_⟩
  cases label with
  | act thread request answer =>
      cases request with
      | commit writes =>
          intro old new node member
          obtain ⟨row, present, same⟩ :=
            List.any_eq_true.mp (List.all_eq_true.mp found _ member)
          exact ⟨row, present, of_decide_eq_true same⟩
      | _ => trivial
  | _ => trivial

def sweeping (config : ServiceConfig) : Bool :=
  match config.threads .worker with
  | .running .gcDeletedFiles (.ret _) => true
  | _ => false

theorem sweeping_finishes {platform : Platform} {config : ServiceConfig}
    (sweeps : sweeping config = true) : ∃ out, Step (service platform) config
      (.finish .worker .gcDeletedFiles out) (config.set .worker .ended) := by
  unfold sweeping at sweeps
  split at sweeps
  · rename_i out at_ret
    exact ⟨out, .finish at_ret⟩
  · cases sweeps

def copied (start config : ServiceConfig) : Bool :=
  decide ((Tid.worker, 4) ∈ config.shared.issued ∧ 4 ∉ start.shared.issued.map (·.2) ∧
    config.shared.objects 3 4 ≠ none)

/-- The upload's first block is copied to the third node, which acknowledges the copy. -/
def copying : List ServiceMove :=
  [.start .worker (.repairFile 1 [2])] ++ prompts .worker 4 ++ delivers [2] ++
    prompts .worker 5 ++ delivers [3] ++ prompts .worker 1

def deleting : List ServiceMove :=
  [.start (.api 1) (.deleteFile 9 1 none)] ++ prompts (.api 1) 5

def repointing : List ServiceMove :=
  prompts .worker 2 ++ delivers [4, 5, 6] ++ prompts (.api 1) 2 ++ [.finish (.api 1)] ++
    prompts .worker 1 ++ [.finish .worker] ++ [.start .worker .gcDeletedFiles] ++
    prompts .worker 3 ++ delivers [7] ++ prompts .worker 2

/-- The delete takes the row first, and the next pass finds none. -/
def removing : List ServiceMove :=
  delivers [4, 5] ++ prompts (.api 1) 2 ++ [.finish (.api 1)] ++ prompts .worker 2 ++
    delivers [6] ++ prompts .worker 1 ++ [.finish .worker] ++ [.start .worker .gcDeletedFiles] ++
    prompts .worker 1

def swept (start : ServiceConfig) : Bool :=
  (drive (service plain) finding start (copying ++ deleting)).any fun driven =>
    copied start driven.2 && (drive (service plain) finding driven.2 repointing).any fun finished =>
      sweeping finished.2

def left (earlier : List ServiceLabel) (start : ServiceConfig) : Bool :=
  (drive (service plain) fair start (copying ++ deleting ++ removing)).any fun finished =>
    sweeping finished.2 && copied start finished.2 &&
      rested [.api 0, .api 1, .worker] (earlier ++ finished.1) (finished.2.set .worker .ended)

/-- A delete and a repair that overlap: the copy has its row before the pass. -/
theorem deletion_completes_racing : ∃ (earlier first second : List ServiceLabel)
    (start between config last : ServiceConfig) (race : Race) (out : Outcome),
    Run (Step (service plain)) (deployed 0) earlier start ∧ race.Ready start ∧
    Run (Guarded race.runs (Step (service plain))) start first between ∧
    between.shared.objects 3 4 ≠ none ∧
    Run (Guarded race.runs (Step (service plain))) between second config ∧
    Step (service plain) config (.finish .worker .gcDeletedFiles out) last ∧
    last.shared.db.shardsOf race.fileId = [] ∧ ∀ node, last.shared.objects node 4 = none := by
  obtain ⟨earlier, start, reached, ready, passed⟩ :=
    race_starts (fun _ start => swept start) (by decide +kernel)
  obtain ⟨first, between, run, checked⟩ := drive_any passed
  obtain ⟨copy, driven⟩ := (Bool.and_eq_true _ _).mp checked
  obtain ⟨drawn, new, present⟩ := of_decide_eq_true copy
  obtain ⟨second, config, rest, sweeps⟩ := drive_any driven
  obtain ⟨out, done⟩ := @sweeping_finishes plain config sweeps
  have sound : ∀ before label after,
      Guarded (fun config label => finding config label = true) (Step (service plain)) before
        label after → Guarded (Race.mk 1 start.shared).runs (Step (service plain)) before label
          after :=
    fun _ _ _ taken => ⟨taken.1, finding_sound rfl taken.2⟩
  have here := run_mono sound run
  have there := run_mono sound rest
  obtain ⟨none, gone⟩ := deletion_completes plain 0 earlier _ start config _ ⟨1, start.shared⟩ out
    reached ready (run_append here there) done
  have still : (Tid.worker, 4) ∈ config.shared.issued :=
    run_life (fun _ _ _ _ life held => life_issued life held)
      (run_append reached (guarded_run here)) (guarded_run there) drawn
  exact ⟨earlier, first, second, start, between, config, _, ⟨1, start.shared⟩, out, reached, ready,
    here, present, there, done, none, gone 4 (Or.inr ⟨still, new⟩)⟩

/-- The same copy, when the delete takes its row before it is repointed. -/
theorem deletion_left : ∃ (earlier labels : List ServiceLabel) (start config last : ServiceConfig)
    (race : Race) (out : Outcome), Run (Step (service plain)) (deployed 0) earlier start ∧
    race.Ready start ∧
    Run (Guarded (fun config label => race.reliable config.shared label) (Step (service plain)))
      start labels config ∧
    Step (service plain) config (.finish .worker .gcDeletedFiles out) last ∧
    (∀ thread, .fail thread ∉ labels) ∧
    (∀ thread job rest, last.threads thread ≠ .running job rest) ∧
    ¬ ∀ id, race.Own last.shared id → ∀ node, last.shared.objects node id = none := by
  obtain ⟨earlier, start, reached, ready, passed⟩ := race_starts left (by decide +kernel)
  obtain ⟨labels, config, run, checked⟩ := drive_any passed
  obtain ⟨checked, rests⟩ := (Bool.and_eq_true _ _).mp checked
  obtain ⟨sweeps, copy⟩ := (Bool.and_eq_true _ _).mp checked
  obtain ⟨drawn, new, present⟩ := of_decide_eq_true copy
  obtain ⟨out, done⟩ := @sweeping_finishes plain config sweeps
  have fairly : Run (Guarded (fun config label =>
      (Race.mk 1 start.shared).reliable config.shared label) (Step (service plain))) start labels
      config :=
    run_mono (fun _ _ _ taken => ⟨taken.1, fair_sound rfl taken.2⟩) run
  have whole := Run.next (run_append reached (guarded_run fairly)) done
  refine ⟨earlier, labels, start, config, _, ⟨1, start.shared⟩, out, reached, ready, fairly, done,
    ?_, ?_, fun none => present (none 4 (Or.inr ⟨drawn, new⟩) 3)⟩
  · intro thread member
    obtain ⟨only, -⟩ := (Bool.and_eq_true _ _).mp rests
    cases List.all_eq_true.mp only _ (List.mem_append_right _ member)
  · have still : rested [.api 0, .api 1, .worker]
        (earlier ++ labels ++ [.finish .worker .gcDeletedFiles out])
        (config.set .worker .ended) = true := by
      simpa [rested, startedBy] using rests
    exact rested_idle whole still

end SecureFileSystem.DeleteRepair
