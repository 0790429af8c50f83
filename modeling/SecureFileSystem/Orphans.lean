import SecureFileSystem.Layering
import SecureFileSystem.Objects
import SecureFileSystem.Requests
import SecureFileSystem.StaleUploads

/-!
Rows before bytes. An upload writes its rows before it sends its blocks, and
the rows go once every node has carried out a DELETE; so every object has a
row, as long as no node carries out a PUT after the DELETE that was meant to
undo it.
-/

namespace SecureFileSystem.Orphans

open Base Database Fleet Session LifeCycle Program Transition RelyGuarantee Files Maintenance
  Routers SecureFileSystem.Configuration Service Interference Stability Conduct Guarantees Wire
  Objects Layering StaleUploads

/-- A row of the table names the object. -/
def Named (shared : Shared) (node id : Uuid) : Prop :=
  ∃ row ∈ shared.db.shards, row.id = id ∧ row.nodeId = node

def carriedOut : FlightState → Bool
  | .answered _ => true
  | _ => false

/-- The node has carried out a DELETE of the object. -/
def Deleted (shared : Shared) (node id : Uuid) : Prop :=
  ∃ flight ∈ shared.flights, flight.node = node ∧ flight.request = .delete id ∧
    carriedOut flight.state = true

instance (shared : Shared) (node id : Uuid) : Decidable (Named shared node id) :=
  inferInstanceAs (Decidable (∃ row ∈ shared.db.shards, row.id = id ∧ row.nodeId = node))

instance (shared : Shared) (node id : Uuid) : Decidable (Deleted shared node id) :=
  inferInstanceAs (Decidable (∃ flight ∈ shared.flights, flight.node = node ∧
    flight.request = .delete id ∧ carriedOut flight.state = true))

/-- A node answers for itself; requests and answers may get lost, or come late. -/
def delivery (shared : Shared) : ServiceLabel → Prop
  | .env event => Delivered shared event
  | _ => True

/-- No node carries out a PUT after a DELETE of the same shard. -/
def inOrder (shared : Shared) : ServiceLabel → Prop
  | .env (.execute handle) => ∀ flight, shared.pending handle = some flight →
      ∀ id data, flight.request = .put id data → ¬ Deleted shared flight.node id
  | _ => True

/-- Every object has its row, a block on the wire has its row or comes too late,
and what a node has deleted stays away. -/
structure Accounted (shared : Shared) : Prop where
  objects : ∀ node id, shared.objects node id ≠ none → Named shared node id
  puts : ∀ flight ∈ shared.flights, ∀ id data, flight.request = .put id data →
    Named shared flight.node id ∨ Deleted shared flight.node id
  gone : ∀ node id, Deleted shared node id → shared.objects node id = none

/-- What a step has to leave the other threads. -/
structure Onward (before after : Shared) : Prop where
  inv : Accounted after
  lasting : Lasting before after
  deleted : ∀ node id, Deleted before node id → Deleted after node id
  named : ∀ node id, Named before node id → Named after node id ∨ Deleted after node id
  rows : ∀ row ∈ after.db.shards, row.fileId ∈ used before → row ∈ before.db.shards

def ordered (shared : Shared) (label : ServiceLabel) : Prop :=
  uploadsAndPasses label = true ∧ delivery shared label ∧ inOrder shared label

def layer : Layer where
  inv := Accounted
  move := fun _ => Onward
  drift := Onward
  allowed := ordered

section Steps
variable {platform : Platform} {thread : Tid} {before after : Shared}

theorem named_same (rows : after.db.shards = before.db.shards) (node id : Uuid) :
    Named after node id ↔ Named before node id := by
  unfold Named
  rw [rows]

theorem exec_deleted {request : Op} {answer : Res request}
    (done : exec thread before request answer = some after) (node id : Uuid) :
    Deleted after node id ↔ Deleted before node id := by
  constructor
  · rintro ⟨flight, member, place, asked, out⟩
    obtain ⟨index, inside, rfl⟩ := List.getElem_of_mem member
    rcases exec_flight done (List.getElem?_eq_getElem inside) with
      ⟨old, there, told⟩ | ⟨-, one, -, fresh⟩
    · have same := told.sent
      simp only [sent, Prod.mk.injEq] at same
      exact ⟨old, List.mem_of_getElem? there, same.2.1.symm.trans place,
        same.2.2.symm.trans asked, told.state ▸ out⟩
    · rw [fresh] at out
      cases out
  · rintro ⟨flight, member, place, asked, out⟩
    obtain ⟨index, inside, rfl⟩ := List.getElem_of_mem member
    obtain ⟨later, there, told⟩ := exec_kept done (List.getElem?_eq_getElem inside)
    have same := told.sent
    simp only [sent, Prod.mk.injEq] at same
    exact ⟨later, List.mem_of_getElem? there, same.2.1.trans place, same.2.2.trans asked,
      told.state ▸ out⟩

/-- A step that leaves the rows alone, and sends a block only if it has its row. -/
theorem exec_onward {request : Op} {answer : Res request}
    (done : exec thread before request answer = some after) (inv : Accounted before)
    (rows : after.db.shards = before.db.shards)
    (backed : ∀ one ∈ sends request, ∀ id data, one.2 = .put id data →
      Named before one.1 id ∨ Deleted before one.1 id) : Onward before after := by
  have deleted := exec_deleted done
  constructor
  case inv =>
    constructor
    case objects =>
      intro node id present
      rw [exec_objects done] at present
      exact (named_same rows node id).mpr (inv.objects node id present)
    case puts =>
      intro flight member id data puts
      rw [named_same rows, deleted]
      obtain ⟨index, inside, rfl⟩ := List.getElem_of_mem member
      rcases exec_flight done (List.getElem?_eq_getElem inside) with
        ⟨old, there, told⟩ | ⟨-, one, asked, fresh⟩
      · have same := told.sent
        simp only [sent, Prod.mk.injEq] at same
        rw [same.2.1]
        exact inv.puts old (List.mem_of_getElem? there) id data (same.2.2.symm.trans puts)
      · rw [fresh] at puts ⊢
        exact backed one asked id data puts
    case gone =>
      intro node id away
      rw [exec_objects done]
      exact inv.gone node id ((deleted node id).mp away)
  case lasting => exact exec_lasting done
  case deleted => exact fun node id => (deleted node id).mpr
  case named => exact fun node id held => Or.inl ((named_same rows node id).mpr held)
  case rows => exact fun row member _ => rows ▸ member

/-- A commit that adds rows of new files, and takes rows only of deleted objects. -/
theorem commit_onward {writes : List Write} (inv : Accounted before)
    (done : exec thread before (.commit writes) () = some after)
    (added : ∀ row ∈ after.db.shards, row.fileId ∈ used before → row ∈ before.db.shards)
    (taken : ∀ row ∈ before.db.shards, row ∈ after.db.shards ∨ Deleted before row.nodeId row.id) :
    Onward before after := by
  have deleted := exec_deleted done
  have named : ∀ node id, Named before node id → Named after node id ∨ Deleted before node id := by
    rintro node id ⟨row, present, rfl, rfl⟩
    exact (taken row present).imp (fun still => ⟨row, still, rfl, rfl⟩) id
  constructor
  case inv =>
    constructor
    case objects =>
      intro node id present
      rw [exec_objects done] at present
      rcases named node id (inv.objects node id present) with still | away
      · exact still
      · exact absurd (inv.gone node id away) present
    case puts =>
      intro flight member id data puts
      rw [deleted]
      obtain ⟨index, inside, rfl⟩ := List.getElem_of_mem member
      rcases exec_flight done (List.getElem?_eq_getElem inside) with
        ⟨old, there, told⟩ | ⟨-, one, asked, -⟩
      · have same := told.sent
        simp only [sent, Prod.mk.injEq] at same
        rw [same.2.1]
        rcases inv.puts old (List.mem_of_getElem? there) id data (same.2.2.symm.trans puts) with
          held | away
        · exact named old.node id held
        · exact Or.inr away
      · cases asked
    case gone =>
      intro node id away
      rw [exec_objects done]
      exact inv.gone node id ((deleted node id).mp away)
  case lasting => exact exec_lasting done
  case deleted => exact fun node id => (deleted node id).mpr
  case named => exact fun node id held => (named node id held).imp_right (deleted node id).mpr
  case rows => exact added

/-- An object that has come up has been put there by a PUT in time. -/
theorem environment_objects {event : Event} (done : environment platform before event = some after)
    (may : ordered before (.env event)) {node id : Uuid} (present : after.objects node id ≠ none) :
    before.objects node id ≠ none ∨ (¬ Deleted before node id ∧ ∃ flight ∈ before.flights,
      flight.node = node ∧ ∃ data, flight.request = .put id data) := by
  rcases object_appears done may.2.1 present with
    old | ⟨handle, flight, data, rfl, pending, rfl, asked⟩
  · exact Or.inl old
  · have member := List.mem_of_getElem? (pending_found pending).1
    exact Or.inr ⟨may.2.2 flight pending id data asked, flight, member, rfl, data, asked⟩

theorem environment_onward {event : Event} (done : environment platform before event = some after)
    (inv : Accounted before) (may : ordered before (.env event)) : Onward before after := by
  have drifts := environment_drifts event done
  have named := named_same (environment_undisturbed event done).shards
  have deleted : ∀ node id, Deleted before node id → Deleted after node id := by
    rintro node id ⟨flight, member, place, asked, out⟩
    obtain ⟨index, inside, rfl⟩ := List.getElem_of_mem member
    obtain ⟨later, there, follows⟩ := drifts_kept drifts (List.getElem?_eq_getElem inside)
    have same := follows.sent
    simp only [sent, Prod.mk.injEq] at same
    refine ⟨later, List.mem_of_getElem? there, same.2.1.trans place, same.2.2.trans asked, ?_⟩
    rcases follows.state with still | waiting
    · rw [still]
      exact out
    · rw [waiting] at out
      cases out
  constructor
  case inv =>
    constructor
    case objects =>
      intro node id present
      rw [named]
      rcases environment_objects done may present with
        old | ⟨early, flight, member, rfl, data, puts⟩
      · exact inv.objects node id old
      · exact (inv.puts flight member id data puts).resolve_right early
    case puts =>
      intro flight member id data puts
      obtain ⟨index, inside, rfl⟩ := List.getElem_of_mem member
      obtain ⟨old, there, follows⟩ := drifts.flights index _ (List.getElem?_eq_getElem inside)
      have same := follows.sent
      simp only [sent, Prod.mk.injEq] at same
      rw [named, same.2.1]
      exact (inv.puts old (List.mem_of_getElem? there) id data
        (same.2.2.symm.trans puts)).imp_right (deleted old.node id)
    case gone =>
      rintro node id ⟨flight, member, place, asked, out⟩
      obtain ⟨index, inside, rfl⟩ := List.getElem_of_mem member
      have found := List.getElem?_eq_getElem inside
      obtain ⟨old, there, follows⟩ := drifts.flights index _ found
      have same := follows.sent
      simp only [sent, Prod.mk.injEq] at same
      rcases follows.state with still | waiting
      · -- deleted before: nothing has put it back
        have away : Deleted before node id := by
          refine ⟨old, List.mem_of_getElem? there, same.2.1.symm.trans place,
            same.2.2.symm.trans asked, ?_⟩
          rw [← still]
          exact out
        by_contra present
        rcases environment_objects done may present with kept | ⟨early, -⟩
        · exact kept (inv.gone node id away)
        · exact early away
      · obtain ⟨response, answered⟩ : ∃ response,
            after.flights[index].state = .answered response := by
          cases state : after.flights[index].state with
          | answered response => exact ⟨response, rfl⟩
          | pending =>
              rw [state] at out
              cases out
          | lost =>
              rw [state] at out
              cases out
        rw [← place]
        exact (delete_carried done may.2.1 there waiting found asked answered).1
  case lasting => exact drifts_lasting drifts
  case deleted => exact deleted
  case named => exact fun node id held => Or.inl ((named node id).mpr held)
  case rows =>
    intro row member _
    rw [← (environment_undisturbed event done).shards]
    exact member

end Steps

theorem layer_sound (platform : Platform) : Sound platform layer where
  move_inv := fun _ _ _ _ _ _ move => move.inv
  drift_inv := fun _ _ _ _ _ drift => drift.inv
  drifts := fun _ _ _ inv done may => environment_onward done inv may

theorem layer_lasts : layer.Lasts where
  drift := fun _ _ drift => drift.lasting
  move := fun _ _ _ move => move.lasting

/-! ### The two jobs -/

/-- The rows of a file as a thread knows them: there are no others, and one goes
only with its object. -/
structure Backed (fileId : Uuid) (rows : List Shard) (shared : Shared) : Prop where
  known : fileId ∈ used shared
  whole : ∀ row ∈ shared.db.shards, row.fileId = fileId → row ∈ rows
  held : ∀ row ∈ rows, Named shared row.nodeId row.id ∨ Deleted shared row.nodeId row.id

/-- What survives every step of every thread. -/
def Settled (holds : Shared → Prop) : Prop :=
  ∀ other before after, Life other before after → Onward before after → holds before → holds after

theorem backed_settled (fileId : Uuid) (rows : List Shard) : Settled (Backed fileId rows) := by
  intro other before after life onward backed
  constructor
  case known => exact used_mono life backed.known
  case whole =>
    intro row member mine
    exact backed.whole row (onward.rows row member (mine ▸ backed.known)) mine
  case held =>
    intro row member
    rcases backed.held row member with named | deleted
    · exact onward.named row.nodeId row.id named
    · exact Or.inr (onward.deleted row.nodeId row.id deleted)

theorem deleted_settled (rows : List Shard) :
    Settled fun shared => ∀ row ∈ rows, Deleted shared row.nodeId row.id :=
  fun _ _ _ _ onward held row member => onward.deleted row.nodeId row.id (held row member)

theorem known_settled (files : List File) :
    Settled fun shared => ∀ file ∈ files, file.id ∈ used shared :=
  fun _ _ _ life _ held file member => used_mono life (held file member)

theorem settled_and {left right : Shared → Prop} (first : Settled left) (second : Settled right) :
    Settled fun shared => left shared ∧ right shared :=
  fun other before after life onward both =>
    ⟨first other before after life onward both.1, second other before after life onward both.2⟩

section Jobs
variable {platform : Platform} {post : Tid → Job → Outcome → Shared → Prop} {thread : Tid}
  {Mid Out : Type} {result : Out → Shared → Prop} {holds : Shared → Prop} {state : Shared}

abbrev Accounts (platform : Platform) (post : Tid → Job → Outcome → Shared → Prop) (thread : Tid)
    (result : Out → Shared → Prop) (prog : Async Out) (state : Shared) : Prop :=
  Safe (service platform) (layer.contract post) thread result prog state

theorem settled_stable (settled : Settled holds) : Stable (layer.contract post) thread holds := by
  apply layer_stable
  · exact fun before after _ _ undisturbed drift held =>
      settled thread before after (.quiet undisturbed) drift held
  · exact fun other before after _ _ _ life move held => settled other before after life move held

theorem accounts_ret (out : Out) :
    Accounts platform post thread (fun _ _ => True) (.ret out) state :=
  fun _ _ _ => trivial

/-- Whatever neither commits nor talks to a node keeps the account. -/
theorem accounts_read (request : Op) {next : Res request → Async Out}
    (silent : Requests.Silent request)
    (rest : ∀ answer later, Accounts platform post thread result (next answer) later) :
    Accounts platform post thread result ((Prog.perform request).bind next) state := by
  apply layer_op (settled_stable fun _ _ _ _ _ _ => trivial) trivial
  intro before answer after wf inv _ done life may
  have plain : commits request = [] ∧ sends request = [] := by
    cases request with
    | send _ => exact silent.elim
    | commit _ => exact silent.elim
    | _ => exact ⟨rfl, rfl⟩
  have rows : after.db.shards = before.db.shards := by rw [exec_db plain.1 done]
  refine ⟨exec_onward done inv rows ?_, rest answer after⟩
  rw [plain.2]
  exact nofun

theorem accounts_reads {first : Async Mid} {rest : Mid → Async Out}
    (silent : first.Only Requests.Silent)
    (tail : ∀ out later, Accounts platform post thread result (rest out) later) :
    Accounts platform post thread result (first.bind rest) state := by
  induction first generalizing state with
  | ret out => exact tail out state
  | op request next ih =>
      exact accounts_read request silent.1 fun answer later => ih answer (silent.2 answer)

theorem accounts_gather {requests : List (Uuid × NodeRequest)} {next : List Reply → Async Out}
    (settled : Settled holds) (start : holds state)
    (backed : ∀ shared, holds shared → ∀ one ∈ requests, ∀ id data, one.2 = .put id data →
      Named shared one.1 id ∨ Deleted shared one.1 id)
    (rest : ∀ replies later, holds later → Heard 0 requests replies later →
      Accounts platform post thread result (next replies) later) :
    Accounts platform post thread result ((gather requests).bind next) state := by
  apply layer_gather 0 layer_lasts (settled_stable settled) start
  · exact fun shared _ _ => Nat.zero_le _
  · intro before request answer after asks wf inv held done life may
    have moved : Onward before after := by
      rcases asks with rfl | ⟨handles, rfl⟩
      · exact exec_onward done inv (by rw [exec_db rfl done]) (backed before held)
      · exact exec_onward done inv (by rw [exec_db rfl done]) nofun
    exact ⟨moved, settled thread before after life moved held⟩
  · exact rest

theorem deletes_backed {requests : List (Uuid × NodeRequest)} {shared : Shared}
    (deletes : ∀ one ∈ requests, ∃ id, one.2 = .delete id) :
    ∀ one ∈ requests, ∀ id data, one.2 = .put id data →
      Named shared one.1 id ∨ Deleted shared one.1 id := by
  intro one member id data puts
  obtain ⟨other, asked⟩ := deletes one member
  rw [asked] at puts
  cases puts

/-- A confirmed DELETE has been carried out. -/
theorem heard_deleted {requests : List (Uuid × NodeRequest)} {replies : List Reply}
    {shared : Shared} (heard : Heard 0 requests replies shared)
    (told : (replies.all fun reply => succeeded (deleteShard reply)) = true) {node id : Uuid}
    (asked : (node, .delete id) ∈ requests) : Deleted shared node id := by
  obtain ⟨index, inside, found⟩ := List.getElem_of_mem asked
  have answered : index < replies.length := heard.length ▸ inside
  have success := List.all_eq_true.mp told _ (List.getElem_mem answered)
  cases reply : replies[index] with
  | none =>
      rw [reply] at success
      cases success
  | some response =>
      obtain ⟨handle, flight, -, there, place, request, state⟩ := heard.answers index _ response
        (List.getElem?_eq_some_iff.mpr ⟨inside, found⟩)
        (List.getElem?_eq_some_iff.mpr ⟨answered, reply⟩)
      exact ⟨flight, List.mem_of_getElem? there, place, request, by rw [state]; rfl⟩

/-- The rows of a file go once each of its objects has been deleted. -/
theorem accounts_retract {fileId : Uuid} {rows : List Shard} {next : Unit → Async Out}
    (settled : Settled holds) (start : holds state) (backed : Backed fileId rows state)
    (deleted : ∀ row ∈ rows, Deleted state row.nodeId row.id)
    (rest : ∀ later, holds later → Accounts platform post thread result (next ()) later) :
    Accounts platform post thread result ((commit [.deleteFile fileId]).bind next) state := by
  apply layer_op (settled_stable (settled_and settled
    (settled_and (backed_settled fileId rows) (deleted_settled rows)))) ⟨start, backed, deleted⟩
  intro before answer after wf inv held done life may
  obtain ⟨held, backed, deleted⟩ := held
  have shards : after.db.shards = before.db.shards.filter (·.fileId ≠ fileId) := by
    simp only [exec, Option.map_eq_some_iff] at done
    obtain ⟨db, committed, rfl⟩ := done
    cases committed
    rfl
  have moved : Onward before after := by
    apply commit_onward inv done
    · intro row member _
      rw [shards] at member
      exact (List.mem_filter.mp member).1
    · intro row present
      rw [shards]
      by_cases mine : row.fileId = fileId
      · exact Or.inr (deleted row (backed.whole row present mine))
      · exact Or.inl (List.mem_filter.mpr ⟨present, by simpa using mine⟩)
  exact ⟨moved, rest after (settled thread before after life moved held)⟩

theorem rollBackUpload_accounts (fileId : Uuid) (rows : List Shard)
    (backed : Backed fileId rows state) :
    Accounts platform post thread (fun _ _ => True) (rollBackUpload fileId rows) state := by
  apply accounts_gather (backed_settled fileId rows) backed
  · intro shared _
    apply deletes_backed
    intro one member
    obtain ⟨row, -, rfl⟩ := List.mem_map.mp member
    exact ⟨row.id, rfl⟩
  · intro replies later backed heard
    split
    · rename_i told
      apply accounts_retract (backed_settled fileId rows) backed backed
      · intro row member
        exact heard_deleted heard told (List.mem_map_of_mem member)
      · exact fun _ _ => accounts_ret ()
    · exact accounts_ret ()

theorem drawIds_silent (count : Nat) : (drawIds count).Only Requests.Silent := by
  induction count with
  | zero => trivial
  | succ count ih =>
      refine ⟨trivial, fun id => ?_⟩
      apply Prog.only_bind ih
      exact fun rest => trivial

/-- An upload leaves the rows of its file, and these only. -/
theorem upload_backed {file : File} {rows : List Shard} {before after : Shared}
    (wf : WellFormed before) (inv : Accounted before)
    (done : exec thread before (.commit [.insertFile file, .insertShards rows]) () = some after)
    (life : Life thread before after) : Onward before after ∧ Backed file.id rows after := by
  obtain ⟨transaction, db, same, enabled, committed, recorded⟩ := life_commit done life
  obtain rfl := Ledger.upload_writes enabled same.symm
  have shards : after.db.shards = before.db.shards ++ rows := by
    rw [recorded]
    exact congrArg Catalog.shards (Ledger.enabled_effect enabled committed).1
  have unused : file.id ∉ used before := (enabled.2 file.id List.mem_cons_self).2
  have owned := enabled.1.owned
  constructor
  · apply commit_onward inv done
    · intro row member known
      rw [shards] at member
      rcases List.mem_append.mp member with old | new
      · exact old
      · exact absurd (owned row new ▸ known) unused
    · intro row present
      rw [shards]
      exact Or.inl (List.mem_append_left _ present)
  · constructor
    case known =>
      rw [recorded, Ledger.used_recorded]
      exact List.mem_append_right _ (by simp [Transaction.writes, newIds])
    case whole =>
      intro row member mine
      rw [shards] at member
      rcases List.mem_append.mp member with old | new
      · obtain ⟨owner, inside, named⟩ := List.mem_map.mp (wf.shards_owned row old)
        exact absurd (mine ▸ named ▸ wf.files_used owner inside) unused
      · exact new
    case held =>
      intro row member
      exact Or.inl ⟨row, shards ▸ List.mem_append_right _ member, rfl, rfl⟩

theorem publish_onward {fileId : Uuid} {event : AuditEvent} {before after : Shared}
    (inv : Accounted before)
    (done : exec thread before (.commit [.setAvailable fileId, .audit event]) () = some after) :
    Onward before after := by
  have shards : after.db.shards = before.db.shards := by
    obtain ⟨db, committed, rfl⟩ := Option.map_eq_some_iff.mp done
    simp only [Db.commit, Db.write, Option.bind_eq_some_iff, Option.ite_none_right_eq_some,
      Option.some.injEq] at committed
    obtain ⟨_, ⟨-, rfl⟩, _, ⟨-, rfl⟩, rfl⟩ := committed
    rfl
  exact commit_onward inv done (fun row member _ => shards ▸ member)
    fun row present => Or.inl (shards ▸ present)

theorem uploadFile_accounts (began : Nat) (upload : Upload) :
    Accounts platform post thread (fun _ _ => True) (Files.uploadFile platform began upload)
      state := by
  unfold Files.uploadFile
  split
  · exact accounts_ret _
  rename_i blocks encoded
  apply accounts_read (.selectNodes _) trivial
  intro candidates later
  split
  · exact accounts_ret _
  apply accounts_read (.shuffle _) trivial
  intro order later
  dsimp only
  split
  · exact accounts_ret _
  apply accounts_read .uuid4 trivial
  intro fileId later
  apply accounts_reads (drawIds_silent _)
  intro ids later
  generalize uploadedShards platform upload fileId 0 ids _ = rows
  apply layer_op (settled_stable fun _ _ _ _ _ _ => trivial) trivial
  intro before answer after wf inv _ done life may
  obtain ⟨moved, backed⟩ := upload_backed wf inv done life
  refine ⟨moved, ?_⟩
  apply accounts_gather (backed_settled fileId rows) backed
  · intro shared backed one member id data puts
    obtain ⟨⟨row, block⟩, paired, rfl⟩ := List.mem_map.mp member
    cases puts
    exact backed.held row (List.of_mem_zip paired).1
  · intro replies later backed _
    split
    · apply layer_op (settled_stable (backed_settled fileId rows)) backed
      intro first answer last wf inv _ done life may
      exact ⟨publish_onward inv done, accounts_ret _⟩
    · exact safe_bind (rollBackUpload_accounts fileId rows backed) fun _ _ _ _ => accounts_ret _

theorem upload_handler_accounts (request : UploadRequest) :
    Accounts platform post thread (fun _ _ => True) (Routers.uploadFile platform request)
      state := by
  apply accounts_read .now trivial
  intro began later
  dsimp only
  split
  · exact accounts_ret _
  split
  · exact accounts_ret _
  split
  · exact accounts_ret _
  split
  · exact accounts_ret _
  apply safe_bind (uploadFile_accounts _ _)
  intro out later _ _
  cases out with
  | error error => cases error <;> exact accounts_ret _
  | ok file =>
      apply accounts_reads (Requests.getFile_silent _)
      intro found later
      cases found with
      | none => exact accounts_ret _
      | some refreshed =>
          apply accounts_reads (Requests.availability_silent _)
          exact fun _ _ => accounts_ret _

theorem gcStaleFiles_accounts (files : List File) (known : ∀ file ∈ files, file.id ∈ used state) :
    Accounts platform post thread (fun _ _ => True) (gcStaleFiles files) state := by
  induction files generalizing state with
  | nil => exact accounts_ret _
  | cons file rest ih =>
      apply layer_op (settled_stable (known_settled (file :: rest))) known
      intro before placed after wf inv known done life may
      obtain ⟨order, same⟩ := Option.ite_none_right_eq_some.mp done
      cases same
      have rows := placed_perm wf order
      have joined : ∀ one ∈ placed, one.1 ∈ before.db.shards ∧ one.2.id = one.1.nodeId := by
        intro one member
        obtain ⟨stored, -, node⟩ :=
          placed_shard (List.mem_filter.mp (order.mem_iff.mp member)).1
        exact ⟨stored, node⟩
      have backed : Backed file.id (placed.map Prod.fst) before := by
        constructor
        case known => exact known file List.mem_cons_self
        case whole =>
          intro row member mine
          exact rows.mem_iff.mpr (List.mem_filter.mpr ⟨member, by simpa using mine⟩)
        case held =>
          intro row member
          obtain ⟨one, inside, rfl⟩ := List.mem_map.mp member
          exact Or.inl ⟨one.1, (joined one inside).1, rfl, rfl⟩
      refine ⟨exec_onward done inv rfl nofun, ?_⟩
      apply accounts_gather (settled_and (known_settled rest) (backed_settled file.id _))
        ⟨fun other member => known other (List.mem_cons_of_mem _ member), backed⟩
      · intro shared _
        apply deletes_backed
        intro one member
        obtain ⟨row, -, rfl⟩ := List.mem_map.mp member
        exact ⟨row.1.id, rfl⟩
      · intro replies later held heard
        split
        · rename_i told
          apply accounts_retract (known_settled rest) held.1 held.2
          · intro row member
            obtain ⟨one, inside, rfl⟩ := List.mem_map.mp member
            apply heard_deleted heard told
            rw [← (joined one inside).2]
            exact List.mem_map_of_mem inside
          · exact fun later known => ih known
        · exact ih held.1

theorem gcStaleUploads_accounts (settings : Settings) :
    Accounts platform post thread (fun _ _ => True) (gcStaleUploads settings) state := by
  apply accounts_read .now trivial
  intro time later
  apply layer_op (settled_stable fun _ _ _ _ _ _ => trivial) trivial
  intro before stale after wf inv _ done life may
  obtain ⟨order, same⟩ := Option.ite_none_right_eq_some.mp done
  cases same
  refine ⟨exec_onward done inv rfl nofun, ?_⟩
  apply gcStaleFiles_accounts
  intro file member
  exact wf.files_used file (List.mem_filter.mp (order.mem_iff.mp member)).1

theorem program_accounts (job : Job) (may : uploadsAndPasses (.start thread job) = true) :
    Accounts platform post thread (fun _ _ => True) (program platform job) state := by
  cases job with
  | upload request =>
      exact safe_bind (upload_handler_accounts request) fun _ _ _ _ => accounts_ret _
  | gcStaleUploads settings =>
      exact safe_bind (gcStaleUploads_accounts settings) fun _ _ _ _ => accounts_ret _
  | _ => cases thread <;> cases may

end Jobs

/-! ### Runs of uploads and passes -/

/-- A row under an id of an upload is a row of its file. -/
def Registered (shared : Shared) : Prop :=
  ∀ thread file rows, Uploaded shared thread file rows → ∀ row ∈ rows, Belongs row.id file.id shared

theorem life_registered {thread : Tid} {before after : Shared} (wf : WellFormed before)
    (life : Life thread before after) (registered : Registered before) : Registered after := by
  intro other file rows uploaded row member
  have known := (Ledger.uploaded_used uploaded).2 row member
  have kept : Uploaded before other file rows → Belongs row.id file.id after :=
    fun old => life_belongs life (registered other file rows old row member)
  cases life with
  | quiet undisturbed =>
      apply kept
      rw [Uploaded, undisturbed.log] at uploaded
      exact uploaded
  | draw id fresh same =>
      apply kept
      rw [same] at uploaded
      exact uploaded
  | commit transaction db enabled done same =>
      rw [same] at uploaded
      rcases Ledger.uploaded_cases enabled uploaded with old | ⟨-, rfl⟩
      · exact kept old
      · -- no earlier row has the id, and the new ones are of this file
        refine ⟨known, fun found present named => ?_⟩
        have shards : after.db.shards = before.db.shards ++ rows := by
          rw [same]
          exact congrArg Catalog.shards (Ledger.enabled_effect enabled done).1
        rw [shards] at present
        rcases List.mem_append.mp present with old | new
        · have fresh := (enabled.2 row.id (List.mem_cons_of_mem _ (List.mem_map_of_mem member))).2
          exact absurd (named ▸ wf.shards_used found old) fresh
        · exact enabled.1.owned found new

def Removed (fileId : Uuid) : Shared → Prop := OfFile fileId fun _ => False

theorem life_removed {thread : Tid} {before after : Shared} {fileId : Uuid}
    (life : Life thread before after) (removed : Removed fileId before) : Removed fileId after :=
  life_ofFile life removed (fun _ never _ _ => never) fun _ _ _ never _ => never

section Runs
variable {platform : Platform} {clock : Nat} {labels : List ServiceLabel} {config : ServiceConfig}

abbrev Ordered (platform : Platform) (before : ServiceConfig) (labels : List ServiceLabel)
    (after : ServiceConfig) : Prop :=
  Run (Guarded (fun config label => ordered config.shared label) (Step (service platform))) before
    labels after

theorem run_accounted (run : Ordered platform (deployed clock) labels config) :
    Accounted config.shared := by
  have start : AllSafe (service platform) (layer.contract fun _ _ _ _ => True)
      (deployed clock) := by
    refine ⟨⟨deployed_wellFormed clock, ?_⟩, fun thread job rest running => by cases running⟩
    constructor
    case objects => exact fun _ _ present => absurd rfl present
    case puts => exact nofun
    case gone => exact fun _ _ _ => rfl
  have all := layer_run (layer_sound platform)
    (fun thread job shared _ _ _ may => program_accounts job may.1) .refl start run
  exact all.inv.2

theorem run_registered (run : Run (Step (service platform)) (deployed clock) labels config) :
    Registered config.shared := by
  have none : Registered (deployed clock).shared := fun _ _ _ uploaded => by cases uploaded
  exact run_life (fun _ _ _ wf life held => life_registered wf life held) .refl run none

end Runs

/-- Whatever the uploads, their rollbacks, crashes and any number of passes have done so
far, every object is named by a row; and once a file has gone no node holds, or ever
comes to hold, one of its objects. -/
theorem uploads_accounted (platform : Platform) (clock : Nat) (labels : List ServiceLabel)
    (config : ServiceConfig)
    (run : Run (Guarded (fun config label => uploadsAndPasses label = true ∧
      delivery config.shared label ∧ inOrder config.shared label) (Step (service platform)))
      (deployed clock) labels config) :
    (∀ node id, config.shared.objects node id ≠ none →
      ∃ row ∈ config.shared.db.shards, row.id = id ∧ row.nodeId = node) ∧
    ∀ thread file rows, Uploaded config.shared thread file rows →
      file.id ∉ config.shared.db.files.map (·.id) →
      ∀ more later, Run (Guarded (fun config label => uploadsAndPasses label = true ∧
          delivery config.shared label ∧ inOrder config.shared label) (Step (service platform)))
          config more later →
        ∀ row ∈ rows, ∀ node, later.shared.objects node row.id = none := by
  refine ⟨(run_accounted run).objects, ?_⟩
  intro thread file rows uploaded away more later further row member node
  have reached := guarded_run run
  have whole := run_append run further
  by_contra present
  obtain ⟨found, inside, named, -⟩ := (run_accounted whole).objects node row.id present
  have logged : Uploaded later.shared thread file rows :=
    run_life (fun _ _ _ _ life held => life_log life held) reached (guarded_run further) uploaded
  have owner := (run_registered (guarded_run whole) thread file rows logged row member).2 found
    inside named
  have removed : Removed file.id config.shared := by
    refine ⟨(Ledger.uploaded_used uploaded).1, fun other standing same => ?_⟩
    exact away (List.mem_map.mpr ⟨other, standing, same⟩)
  have still : Removed file.id later.shared :=
    run_life (fun _ _ _ _ life held => life_removed life held) reached (guarded_run further) removed
  obtain ⟨other, standing, same⟩ :=
    List.mem_map.mp ((service_safe (guarded_run whole)).inv.shards_owned found inside)
  exact still.2 other standing (same.trans owner)

/-! ### A late block, before and after its DELETE -/

def late (label : ServiceLabel) : Bool :=
  uploadsAndPasses label && match label with
  | .env (.misreply _ _) | .env (.damage _ _ _) => false
  | _ => true

def punctual (config : ServiceConfig) (label : ServiceLabel) : Bool :=
  late label && match label with
  | .env (.execute handle) => config.shared.flights[handle]?.all fun flight =>
      match flight.request with
      | .put id _ => !decide (Deleted config.shared flight.node id)
      | _ => true
  | _ => true

theorem late_sound (config : ServiceConfig) (label : ServiceLabel) (may : late label = true) :
    uploadsAndPasses label = true ∧ delivery config.shared label := by
  obtain ⟨kind, fair⟩ := (Bool.and_eq_true _ _).mp may
  refine ⟨kind, ?_⟩
  cases label with
  | env event =>
      cases event with
      | misreply _ _ => cases fair
      | damage _ _ _ => cases fair
      | _ => trivial
  | _ => trivial

theorem punctual_sound (config : ServiceConfig) (label : ServiceLabel)
    (may : punctual config label = true) : ordered config.shared label := by
  obtain ⟨fair, intime⟩ := (Bool.and_eq_true _ _).mp may
  obtain ⟨kind, delivered⟩ := late_sound config label fair
  refine ⟨kind, delivered, ?_⟩
  cases label with
  | env event =>
      cases event with
      | execute handle =>
          intro flight pending id data puts
          simpa [(pending_found pending).1, puts] using intime
      | _ => trivial
  | _ => trivial

def uploadsRow (id : Uuid) (entry : Tid × List Write) : Bool :=
  match entry.2 with
  | [.insertFile _, .insertShards rows] => rows.any fun row => decide (row.id = id)
  | _ => false

theorem uploadsRow_spec {shared : Shared} {id : Uuid}
    (found : shared.log.any (uploadsRow id) = true) :
    ∃ thread file rows, Uploaded shared thread file rows ∧ ∃ row ∈ rows, row.id = id := by
  obtain ⟨⟨thread, writes⟩, member, matched⟩ := List.any_eq_true.mp found
  unfold uploadsRow at matched
  split at matched
  · rename_i file rows same
    obtain ⟨row, inside, named⟩ := List.any_eq_true.mp matched
    dsimp only at same
    subst same
    exact ⟨thread, file, rows, member, row, inside, of_decide_eq_true named⟩
  · cases matched

def emptied (config : ServiceConfig) : Bool :=
  decide (config.shared.db.files = []) && config.shared.log.any (uploadsRow 3)

/-- The client gives up on a PUT that is then carried out, and the DELETE after it is
lost: the row stays for a pass, which takes both. -/
theorem uploads_accounted_late : ∃ labels between more config,
    Ordered plain (deployed 0) labels between ∧ Ordered plain between more config ∧
    between.shared.objects 2 3 ≠ none ∧ Named between.shared 2 3 ∧
    ∀ node, config.shared.objects node 3 = none := by
  obtain ⟨labels, between, run, passed⟩ := drive_guarded (service plain) punctual (deployed 0)
    (smallStart ++ delivers [0] ++ prompts (.api 0) 1 ++ delivers [1] ++ prompts (.api 0) 1 ++
      delivers [2] ++ [.env (.lose 3)] ++ prompts (.api 0) 1 ++ [.finish (.api 0)])
    (fun _ between => decide (between.shared.objects 2 3 ≠ none) &&
      (drive (service plain) punctual between
        ([.env (.tick 100), .start .worker (.gcStaleUploads smallSettings)] ++ prompts .worker 4 ++
          delivers [4, 5] ++ prompts .worker 2)).any fun driven => emptied driven.2)
    (by decide +kernel)
  obtain ⟨present, driven⟩ := (Bool.and_eq_true _ _).mp passed
  obtain ⟨more, config, rest, empty⟩ := drive_any driven
  have sound : ∀ before label after,
      Guarded (fun config label => punctual config label = true) (Step (service plain)) before
        label after → Guarded (fun config label => ordered config.shared label)
          (Step (service plain)) before label after :=
    fun _ _ _ taken => ⟨taken.1, punctual_sound _ _ taken.2⟩
  have here := run_mono sound run
  have there := run_mono sound rest
  have object := of_decide_eq_true present
  obtain ⟨none, logged⟩ := (Bool.and_eq_true _ _).mp empty
  obtain ⟨thread, file, rows, uploaded, row, member, named⟩ := uploadsRow_spec logged
  have away : file.id ∉ config.shared.db.files.map (·.id) := by
    rw [of_decide_eq_true none]
    exact List.not_mem_nil
  refine ⟨labels, between, more, config, here, there, object, ?_, ?_⟩
  · exact (uploads_accounted plain 0 labels between here).1 2 3 object
  · intro node
    rw [← named]
    exact (uploads_accounted plain 0 _ config (run_append here there)).2 thread file rows uploaded
      away [] config .refl row member node

/-- The same PUT, carried out after the DELETE was answered: its row has gone by then. -/
theorem upload_orphaned : ∃ labels config,
    Run (Guarded (fun config label => uploadsAndPasses label = true ∧
      delivery config.shared label) (Step (service plain))) (deployed 0) labels config ∧
    ¬ ∀ node id, config.shared.objects node id ≠ none →
      ∃ row ∈ config.shared.db.shards, row.id = id ∧ row.nodeId = node := by
  obtain ⟨labels, config, run, passed⟩ := drive_guarded (service plain) (fun _ => late) (deployed 0)
    (smallStart ++ delivers [0] ++ prompts (.api 0) 2 ++ delivers [2, 3] ++ prompts (.api 0) 2 ++
      delivers [1])
    (fun _ config => decide (config.shared.objects 2 3 ≠ none ∧ config.shared.db.shards = []))
    (by decide +kernel)
  obtain ⟨object, none⟩ := of_decide_eq_true passed
  refine ⟨labels, config, run_mono (fun before label _ taken =>
    ⟨taken.1, late_sound before label taken.2⟩) run, fun listed => ?_⟩
  obtain ⟨row, member, -⟩ := listed 2 3 object
  rw [none] at member
  cases member

end SecureFileSystem.Orphans
