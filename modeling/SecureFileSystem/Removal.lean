import SecureFileSystem.Attribution
import SecureFileSystem.Layering
import SecureFileSystem.Objects
import SecureFileSystem.Revocation

/-!
The removal of a deleted file's shards. A row is dropped once its node has
confirmed that the object is gone, so whatever is still stored is still named,
over any number of passes and whatever becomes of them.
-/

namespace SecureFileSystem.Removal

open Base Database Fleet Session LifeCycle Program Transition RelyGuarantee Files Maintenance
  Routers Service Interference Stability Conduct Guarantees Attribution Wire Objects Layering

/-- A file, the rows it has when it is deleted, and how much is on the wire by then. -/
structure Deletion where
  fileId : Uuid
  rows : List Shard
  base : Nat
  owned : ∀ row ∈ rows, row.fileId = fileId
  distinct : (rows.map (·.id)).Nodup

def Revoked (fileId : Uuid) (shared : Shared) : Prop :=
  ∃ entry ∈ shared.log, ∃ deletedAt linkVersion,
    .setDeleted fileId deletedAt linkVersion ∈ entry.2

def Absent (shared : Shared) (row : Shard) : Prop := shared.objects row.nodeId row.id = none

/-- The answer of a node that does not have the object any more. -/
def confirms (response : HttpResponse) : Bool := succeeded (deleteShard (some response))

/-- Since the delete the node of the row has confirmed that the object is gone. -/
def Deletion.Confirmed (deletion : Deletion) (shared : Shared) (row : Shard) : Prop :=
  ∃ index flight response, deletion.base ≤ index ∧ shared.flights[index]? = some flight ∧
    flight.node = row.nodeId ∧ flight.request = .delete row.id ∧
    flight.state = .answered response ∧ confirms response = true

/-- What is known since the delete: a row goes only once its node has confirmed,
and a node that has confirmed does not have the object. -/
structure Deletion.Tracked (deletion : Deletion) (shared : Shared) : Prop where
  used : deletion.fileId ∈ used shared
  rows : ∀ row ∈ shared.db.shards, row.fileId = deletion.fileId → row ∈ deletion.rows
  covered : ∀ row ∈ deletion.rows, row ∈ shared.db.shards ∨ deletion.Confirmed shared row
  length : deletion.base ≤ shared.flights.length
  absent : ∀ row ∈ deletion.rows, deletion.Confirmed shared row → Absent shared row

/-- Nothing but removal passes writes the rows of the file or its objects, and
no fault of a node looks like a confirmation. -/
def Deletion.Sole (deletion : Deletion) (shared : Shared) : ServiceLabel → Prop
  | .act _ (.commit writes) _ => .deleteFile deletion.fileId ∉ writes ∧
      ∀ row ∈ deletion.rows, ∀ new node, .repoint row.id new node ∉ writes
  | .env (.execute handle) => ∀ flight, shared.pending handle = some flight →
      ∀ row ∈ deletion.rows, flight.node = row.nodeId → ∀ data, flight.request ≠ .put row.id data
  | .env (.misreply handle response) => ∀ flight, shared.pending handle = some flight →
      ∀ row ∈ deletion.rows, flight.request = .delete row.id → confirms response = false
  | .env (.damage node id entry) =>
      ∀ row ∈ deletion.rows, row.nodeId = node → row.id = id → Absent shared row → entry = none
  | _ => True

def Deletion.Begins (deletion : Deletion) (shared : Shared) : ServiceLabel → Prop
  | .act _ (.commit writes) _ => ∀ deletedAt linkVersion,
      .setDeleted deletion.fileId deletedAt linkVersion ∈ writes →
        deletion.rows = shared.db.shardsOf deletion.fileId ∧ deletion.base = shared.flights.length
  | _ => True

def Deletion.allowed (deletion : Deletion) (shared : Shared) (label : ServiceLabel) : Prop :=
  (Revoked deletion.fileId shared → deletion.Sole shared label) ∧
    (¬ Revoked deletion.fileId shared → deletion.Begins shared label)

def Deletion.Inv (deletion : Deletion) (shared : Shared) : Prop :=
  Revoked deletion.fileId shared → deletion.Tracked shared

section Steps
variable {platform : Platform} {deletion : Deletion} {thread : Tid} {before after : Shared}

theorem revoked_exec {fileId : Uuid} {request : Op} {answer : Res request}
    (done : exec thread before request answer = some after) (revoked : Revoked fileId after) :
    Revoked fileId before ∨ ∃ writes deletedAt linkVersion, request = .commit writes ∧
      .setDeleted fileId deletedAt linkVersion ∈ writes := by
  obtain ⟨entry, member, deletedAt, linkVersion, revokes⟩ := revoked
  rw [exec_log done] at member
  rcases List.mem_append.mp member with old | new
  · exact Or.inl ⟨entry, old, deletedAt, linkVersion, revokes⟩
  · right
    obtain ⟨writes, mine, rfl⟩ := List.mem_map.mp new
    cases request with
    | commit committed =>
        obtain rfl := List.mem_singleton.mp mine
        exact ⟨writes, deletedAt, linkVersion, rfl, revokes⟩
    | _ => cases mine

theorem revoked_life {fileId : Uuid} (life : Life thread before after)
    (revoked : Revoked fileId before) : Revoked fileId after := by
  obtain ⟨entry, member, revokes⟩ := revoked
  exact ⟨entry, life_log life member, revokes⟩

theorem commit_rows {transaction : Transaction} {db : Db} {fileId : Uuid}
    (enabled : Enabled thread before transaction)
    (done : before.db.commit transaction.writes = some db) (known : fileId ∈ used before)
    (retracts : .deleteFile fileId ∉ transaction.writes)
    (repoints : ∀ row ∈ before.db.shards, row.fileId = fileId → ∀ new node,
      .repoint row.id new node ∉ transaction.writes)
    (discards : ∀ row ∈ before.db.shards, row.fileId = fileId → ∀ ids,
      .deleteShards ids ∈ transaction.writes → row.id ∉ ids) :
    db.shardsOf fileId = before.db.shardsOf fileId := by
  have shards : db.shards = (transaction.effect (catalog before.db)).shards :=
    congrArg Catalog.shards (Ledger.enabled_effect enabled done).1
  rw [Db.shardsOf, Db.shardsOf, shards]
  -- Each transaction leaves these rows: another file is meant, or rows are not named.
  cases transaction with
  | upload file rows =>
      have foreign : rows.filter (·.fileId = fileId) = [] := by
        apply List.filter_eq_nil_iff.mpr
        intro row member
        rw [enabled.1.owned row member]
        have unused := (enabled.2 file.id List.mem_cons_self).2
        have other : file.id ≠ fileId := fun same => unused (same ▸ known)
        simpa using other
      change (before.db.shards ++ rows).filter _ = _
      rw [List.filter_append, foreign, List.append_nil]
  | retract other =>
      have different : fileId ≠ other := by simpa [Transaction.writes] using retracts
      change (before.db.shards.filter _).filter _ = _
      rw [List.filter_filter]
      apply List.filter_congr
      intro row _
      by_cases mine : row.fileId = fileId <;> simp [mine, different]
  | discard ids =>
      change (before.db.shards.filter _).filter _ = _
      rw [List.filter_filter]
      apply List.filter_congr
      intro row member
      by_cases mine : row.fileId = fileId
      · have stays := discards row member mine ids (by simp [Transaction.writes])
        simp [mine, stays]
      · simp [mine]
  | repoint old new node =>
      have same : ∀ row ∈ before.db.shards, row.fileId = fileId → row.id ≠ old := by
        rintro row member mine rfl
        exact repoints row member mine new node (by simp [Transaction.writes])
      change (before.db.shards.map (repointShard old new node)).filter _ = _
      have owner : ∀ row, (repointShard old new node row).fileId = row.fileId := by
        intro row
        unfold repointShard
        split <;> rfl
      rw [List.filter_map]
      have congr : before.db.shards.filter
          ((fun row => decide (row.fileId = fileId)) ∘ repointShard old new node) =
            before.db.shards.filter (·.fileId = fileId) := by
        apply List.filter_congr
        intro row _
        simp [owner]
      rw [congr]
      conv_rhs => rw [← List.map_id (before.db.shards.filter _)]
      apply List.map_congr_left
      intro row member
      obtain ⟨present, mine⟩ := List.mem_filter.mp member
      have stays := same row present (by simpa using mine)
      simp [repointShard, stays]
  | publish _ _ => rfl
  | revoke _ _ _ _ => rfl
  | observe _ => rfl
  | audit _ => rfl

theorem exec_confirmed {request : Op} {answer : Res request}
    (done : exec thread before request answer = some after) (row : Shard) :
    deletion.Confirmed after row ↔ deletion.Confirmed before row := by
  constructor
  · rintro ⟨index, flight, response, late, found, node, asked, state, confirming⟩
    rcases exec_flight done found with ⟨old, there, told⟩ | ⟨-, one, -, rfl⟩
    · have same := told.sent
      simp only [sent, Prod.mk.injEq] at same
      exact ⟨index, old, response, late, there, same.2.1.symm.trans node,
        same.2.2.symm.trans asked, told.state.symm.trans state, confirming⟩
    · cases state
  · rintro ⟨index, flight, response, late, found, node, asked, state, confirming⟩
    obtain ⟨later, there, told⟩ := exec_kept done found
    have same := told.sent
    simp only [sent, Prod.mk.injEq] at same
    exact ⟨index, later, response, late, there, same.2.1.trans node, same.2.2.trans asked,
      told.state.trans state, confirming⟩

theorem environment_confirmed {event : Event} (done : environment platform before event = some after)
    {row : Shard} (confirmed : deletion.Confirmed before row) : deletion.Confirmed after row := by
  obtain ⟨index, flight, response, late, found, node, asked, state, confirming⟩ := confirmed
  obtain ⟨later, there, follows⟩ := drifts_kept (environment_drifts event done) found
  have same := follows.sent
  simp only [sent, Prod.mk.injEq] at same
  refine ⟨index, later, response, late, there, same.2.1.trans node, same.2.2.trans asked, ?_,
    confirming⟩
  rcases follows.state with still | waiting
  · exact still.trans state
  · rw [state] at waiting
    cases waiting

theorem exec_tracked {request : Op} {answer : Res request}
    (done : exec thread before request answer = some after) (life : Life thread before after)
    (rows : after.db.shardsOf deletion.fileId = before.db.shardsOf deletion.fileId)
    (tracked : deletion.Tracked before) : deletion.Tracked after := by
  have mem_rows : ∀ shared : Shared, ∀ row, row ∈ shared.db.shardsOf deletion.fileId ↔
      row ∈ shared.db.shards ∧ row.fileId = deletion.fileId := by
    intro shared row
    simp [Db.shardsOf]
  constructor
  case used => exact used_mono life tracked.used
  case rows =>
    intro row member mine
    have old := (mem_rows after row).mpr ⟨member, mine⟩
    rw [rows] at old
    exact tracked.rows row ((mem_rows before row).mp old).1 mine
  case covered =>
    intro row member
    rcases tracked.covered row member with present | confirmed
    · left
      have old := (mem_rows before row).mpr ⟨present, deletion.owned row member⟩
      rw [← rows] at old
      exact ((mem_rows after row).mp old).1
    · exact Or.inr ((exec_confirmed done row).mpr confirmed)
  case length =>
    have grown := congrArg List.length (exec_wire done)
    simp only [wire, List.length_map, List.length_append] at grown
    exact tracked.length.trans (by omega)
  case absent =>
    intro row member confirmed
    rw [Absent, exec_objects done]
    exact tracked.absent row member ((exec_confirmed done row).mp confirmed)

theorem revoke_tracked {transaction : Transaction} {db : Db} {deletedAt linkVersion : Nat}
    (wf : WellFormed before) (enabled : Enabled thread before transaction)
    (done : before.db.commit transaction.writes = some db)
    (revokes : .setDeleted deletion.fileId deletedAt linkVersion ∈ transaction.writes)
    (rows : deletion.rows = before.db.shardsOf deletion.fileId)
    (base : deletion.base = before.flights.length) :
    deletion.Tracked (recorded before thread transaction db) := by
  have shards : db.shards = (transaction.effect (catalog before.db)).shards :=
    congrArg Catalog.shards (Ledger.enabled_effect enabled done).1
  cases transaction with
  | revoke other time version event =>
      obtain ⟨rfl, rfl, rfl⟩ : deletion.fileId = other ∧ deletedAt = time ∧ linkVersion = version := by
        simpa [Transaction.writes] using revokes
      have known : deletion.fileId ∈ before.db.files.map (·.id) :=
        (Ledger.enabled_effect enabled done).2
      obtain ⟨file, inside, named⟩ := List.mem_map.mp known
      constructor
      case used =>
        rw [Ledger.used_recorded]
        exact List.mem_append_left _ (named ▸ wf.files_used file inside)
      case rows =>
        intro row member mine
        rw [rows]
        change row ∈ db.shards at member
        rw [shards] at member
        exact List.mem_filter.mpr ⟨member, by simpa using mine⟩
      case covered =>
        intro row member
        rw [rows] at member
        left
        change row ∈ db.shards
        rw [shards]
        exact (List.mem_filter.mp member).1
      case length => exact base.le
      case absent =>
        rintro row - ⟨index, flight, response, late, found, -⟩
        have inside := (List.getElem?_eq_some_iff.mp found).1
        exact absurd (base ▸ late) (Nat.not_le.mpr inside)
  | observe writes => exact (enabled _ revokes).elim
  | _ => simp [Transaction.writes] at revokes

theorem step_inv {request : Op} {answer : Res request} (wf : WellFormed before)
    (done : exec thread before request answer = some after) (life : Life thread before after)
    (may : deletion.allowed before (.act thread request answer))
    (keeps : ∀ writes, request = .commit writes → ∀ ids, .deleteShards ids ∉ writes)
    (inv : deletion.Inv before) : deletion.Inv after := by
  intro revoked
  by_cases already : Revoked deletion.fileId before
  · have tracked := inv already
    refine exec_tracked done life ?_ tracked
    by_cases reads : commits request = []
    · rw [exec_db reads done]
    · cases request with
      | commit writes =>
          obtain ⟨transaction, db, rfl, enabled, committed, rfl⟩ := life_commit done life
          obtain ⟨retracts, repoints⟩ := may.1 already
          refine commit_rows enabled committed tracked.used retracts ?_ ?_
          · exact fun row member mine => repoints row (tracked.rows row member mine)
          · exact fun _ _ _ ids discards => absurd discards (keeps _ rfl ids)
      | _ => exact absurd rfl reads
  · rcases revoked_exec done revoked with old | ⟨writes, deletedAt, linkVersion, rfl, revokes⟩
    · exact absurd old already
    · obtain ⟨transaction, db, rfl, enabled, committed, rfl⟩ := life_commit done life
      obtain ⟨rows, base⟩ := may.2 already deletedAt linkVersion revokes
      exact revoke_tracked wf enabled committed revokes rows base

theorem environment_absent {event : Event} (done : environment platform before event = some after)
    (sole : deletion.Sole before (.env event)) {row : Shard} (member : row ∈ deletion.rows)
    (absent : Absent before row) : Absent after row := by
  unfold Absent at absent ⊢
  cases event with
  | execute handle =>
      obtain ⟨flight, pending, rfl⟩ := Option.map_eq_some_iff.mp done
      rw [execute_objects]
      split
      · rename_i here
        rw [absent]
        have never := sole flight pending row member here.1
        cases asked : flight.request with
        | put id data =>
            rw [asked] at here
            cases here.2
            exact absurd asked (never data)
        | _ => rfl
      · exact absent
  | damage node id entry =>
      cases done
      by_cases here : row.nodeId = node ∧ row.id = id
      · obtain ⟨rfl, rfl⟩ := here
        rw [store_self]
        exact sole row member rfl rfl absent
      · rw [store_other before entry here]
        exact absent
  | lose handle =>
      obtain ⟨flight, -, rfl⟩ := Option.map_eq_some_iff.mp done
      exact absent
  | misreply handle response =>
      obtain ⟨flight, -, rfl⟩ := Option.map_eq_some_iff.mp done
      exact absent
  | register node =>
      obtain ⟨-, same⟩ := Option.ite_none_right_eq_some.mp done
      cases same
      exact absent
  | tick _ => cases done; exact absent
  | operator _ _ => cases done; exact absent

/-- A node that confirms has deleted the object just now, or did not have it. -/
theorem execute_deletes {handle : Nat} {flight : Flight Tid} {row : Shard}
    (node : flight.node = row.nodeId) (request : flight.request = .delete row.id) :
    Absent (before.execute platform handle flight) row := by
  rw [Absent, execute_objects, if_pos ⟨node, by rw [request]; rfl⟩, request]
  cases before.objects row.nodeId row.id <;> rfl

/-- A node that executes a DELETE confirms, also when it did not have the object. -/
theorem delete_confirmed {shared : Shared} {handle : Nat} {flight : Flight Tid} {id : Uuid}
    (there : shared.flights[handle]? = some flight) (asked : flight.request = .delete id) :
    ∃ answered response, (shared.execute platform handle flight).flights[handle]? = some answered ∧
      answered.state = .answered response ∧ confirms response = true := by
  have inside := (List.getElem?_eq_some_iff.mp there).1
  have kept : handle < (shared.execute platform handle flight).flights.length := by
    unfold Shared.execute
    split <;> simpa [Shared.settle, Shared.store] using inside
  have found := List.getElem?_eq_getElem kept
  have changed := execute_answer id there (by rw [asked]; rfl) found
  refine ⟨_, (serve platform (shared.objects flight.node id) flight.request).1, found, ?_, ?_⟩
  · rw [changed]
  · rw [asked]
    cases shared.objects flight.node id <;> rfl

theorem environment_tracked {event : Event} (done : environment platform before event = some after)
    (sole : deletion.Sole before (.env event)) (tracked : deletion.Tracked before) :
    deletion.Tracked after := by
  have undisturbed := environment_undisturbed event done
  have drifts := environment_drifts event done
  constructor
  case used =>
    rw [used, undisturbed.log]
    exact tracked.used
  case rows =>
    rw [undisturbed.shards]
    exact tracked.rows
  case covered =>
    intro row member
    rw [undisturbed.shards]
    exact (tracked.covered row member).imp id fun confirmed => environment_confirmed done confirmed
  case length =>
    rw [drifts_length drifts]
    exact tracked.length
  case absent =>
    rintro row member ⟨index, flight, response, late, found, node, request, state, confirming⟩
    obtain ⟨old, there, follows⟩ := drifts.flights index flight found
    have same := follows.sent
    simp only [sent, Prod.mk.injEq] at same
    have place := same.2.1.symm.trans node
    have asked := same.2.2.symm.trans request
    rcases follows.state with still | waiting
    · have confirmed : deletion.Confirmed before row :=
        ⟨index, old, response, late, there, place, asked, still.symm.trans state, confirming⟩
      exact environment_absent done sole member (tracked.absent row member confirmed)
    · obtain ⟨pending, carried | wrong⟩ := answered_now done there waiting found state
      · rw [carried]
        exact execute_deletes place asked
      · subst wrong
        have never := sole old pending row member asked
        rw [confirming] at never
        cases never

end Steps

/-! ### Every job keeps it -/

structure Deletion.Onward (deletion : Deletion) (before after : Shared) : Prop where
  inv : deletion.Inv after
  lasting : Lasting before after
  confirmed : ∀ row, deletion.Confirmed before row → deletion.Confirmed after row

def Deletion.layer (deletion : Deletion) : Layer where
  inv := deletion.Inv
  move := fun _ => deletion.Onward
  drift := deletion.Onward
  allowed := deletion.allowed

theorem layer_sound (platform : Platform) (deletion : Deletion) :
    Sound platform deletion.layer where
  move_inv := fun _ _ _ _ _ _ move => move.inv
  drift_inv := fun _ _ _ _ _ drift => drift.inv
  drifts := by
    intro before event after inv done may
    constructor
    case inv =>
      intro revoked
      have already : Revoked deletion.fileId before := by
        rw [Revoked, (environment_undisturbed event done).log] at revoked
        exact revoked
      exact environment_tracked done (may.1 already) (inv already)
    case lasting => exact drifts_lasting (environment_drifts event done)
    case confirmed => exact fun row confirmed => environment_confirmed done confirmed

theorem layer_lasts (deletion : Deletion) : deletion.layer.Lasts where
  drift := fun _ _ drift => drift.lasting
  move := fun _ _ _ move => move.lasting

section Jobs
variable {platform : Platform} {deletion : Deletion} {post : Tid → Job → Outcome → Shared → Prop}
  {thread : Tid} {Out : Type} {result : Out → Shared → Prop} {holds : Shared → Prop}
  {state : Shared}

abbrev Cleans (platform : Platform) (deletion : Deletion)
    (post : Tid → Job → Outcome → Shared → Prop) (thread : Tid) (result : Out → Shared → Prop)
    (prog : Async Out) (state : Shared) : Prop :=
  Safe (service platform) (deletion.layer.contract post) thread result prog state

theorem stable_of_life (kept : ∀ other before after, Life other before after → holds before →
    holds after) : Stable (deletion.layer.contract post) thread holds := by
  apply layer_stable
  · exact fun before after _ _ undisturbed _ held => kept thread before after (.quiet undisturbed) held
  · exact fun other before after _ _ _ life _ held => kept other before after life held

theorem revoked_stable (fileId : Uuid) :
    Stable (deletion.layer.contract post) thread (Revoked fileId) :=
  stable_of_life fun _ _ _ life revoked => revoked_life life revoked

def Deletion.Cleared (deletion : Deletion) (ids : List Uuid) (shared : Shared) : Prop :=
  ∀ row ∈ deletion.rows, row.id ∈ ids → deletion.Confirmed shared row

theorem cleared_stable (ids : List Uuid) :
    Stable (deletion.layer.contract post) thread (deletion.Cleared ids) := by
  apply layer_stable
  · exact fun _ _ _ _ _ drift held row member named =>
      drift.confirmed row (held row member named)
  · exact fun _ _ _ _ _ _ _ move held row member named =>
      move.confirmed row (held row member named)

theorem step_move {request : Op} {answer : Res request} {before after : Shared}
    (wf : WellFormed before) (inv : deletion.Inv before)
    (done : exec thread before request answer = some after) (life : Life thread before after)
    (may : deletion.allowed before (.act thread request answer))
    (keeps : ∀ writes, request = .commit writes → ∀ ids, .deleteShards ids ∉ writes) :
    deletion.layer.move thread before after :=
  ⟨step_inv wf done life may keeps inv, exec_lasting done,
    fun row => (exec_confirmed done row).mpr⟩

theorem other_cleans {kinds : Write → Prop} (never : ∀ ids, ¬ kinds (.deleteShards ids))
    {prog : Async Out} (only : prog.Only (Within kinds)) :
    Cleans platform deletion post thread (fun _ _ => True) prog state := by
  induction prog generalizing state with
  | ret out => exact fun _ _ _ => trivial
  | op request next ih =>
      apply layer_op (stable_const True) trivial
      intro before answer after wf inv _ done life may
      refine ⟨step_move wf inv done life may ?_, ih answer (only.2 answer)⟩
      rintro writes rfl ids discards
      exact never ids (only.1 _ discards)

structure Deletion.Read (deletion : Deletion) (fileId : Uuid) (placed : List (Shard × StorageNode))
    (shared : Shared) : Prop where
  revoked : Revoked fileId shared
  belongs : ∀ one ∈ placed, Belongs one.1.id fileId shared
  rows : fileId = deletion.fileId → ∀ one ∈ placed, one.1 ∈ deletion.rows ∧ one.2.id = one.1.nodeId

theorem read_life {fileId : Uuid} {placed : List (Shard × StorageNode)} {before after : Shared}
    (life : Life thread before after) (read : deletion.Read fileId placed before) :
    deletion.Read fileId placed after where
  revoked := revoked_life life read.revoked
  belongs := fun one member => life_belongs life (read.belongs one member)
  rows := read.rows

theorem read_stable (fileId : Uuid) (placed : List (Shard × StorageNode)) :
    Stable (deletion.layer.contract post) thread (deletion.Read fileId placed) :=
  stable_of_life fun _ _ _ life read => read_life life read

theorem select_read {fileId : Uuid} {placed : List (Shard × StorageNode)} {shared : Shared}
    (wf : WellFormed shared) (inv : deletion.Inv shared) (revoked : Revoked fileId shared)
    (order : placed.Perm (shared.db.placed.filter fun row => row.1.fileId = fileId)) :
    deletion.Read fileId placed shared := by
  refine ⟨revoked, placed_belongs wf order, ?_⟩
  rintro rfl one member
  obtain ⟨joined, mine⟩ := List.mem_filter.mp (order.mem_iff.mp member)
  obtain ⟨stored, -, node⟩ := placed_shard joined
  exact ⟨(inv revoked).rows one.1 stored (by simpa using mine), node⟩

def removals (placed : List (Shard × StorageNode)) : List (Uuid × NodeRequest) :=
  placed.map fun (shard, node) => (node.id, .delete shard.id)

theorem confirmed_reply {placed : List (Shard × StorageNode)} {replies : List Reply} {id : Uuid}
    (member : id ∈ confirmed placed replies) :
    ∃ (index : Nat) (one : Shard × StorageNode) (response : HttpResponse),
      placed[index]? = some one ∧ replies[index]? = some (some response) ∧ one.1.id = id ∧
        confirms response = true := by
  obtain ⟨⟨one, reply⟩, paired, hit⟩ := List.mem_filterMap.mp member
  simp only [Option.ite_none_right_eq_some, Option.some.injEq] at hit
  obtain ⟨index, inside, found⟩ := List.getElem_of_mem paired
  have both := List.getElem?_eq_some_iff.mpr ⟨inside, found⟩
  rw [List.getElem?_zip_eq_some] at both
  cases reply with
  | none => cases hit.1
  | some response => exact ⟨index, one, response, both.1, both.2, hit.2, hit.1⟩

/-- What a pass takes for confirmed has been confirmed. -/
theorem heard_cleared {placed : List (Shard × StorageNode)} {replies : List Reply} {shared : Shared}
    (read : deletion.Read deletion.fileId placed shared)
    (heard : Heard deletion.base (removals placed) replies shared) :
    deletion.Cleared (confirmed placed replies) shared := by
  intro row member named
  obtain ⟨index, one, response, found, told, same, confirming⟩ := confirmed_reply named
  obtain ⟨inRows, node⟩ := read.rows rfl one (List.mem_of_getElem? found)
  have mine : one.1 = row := List.inj_on_of_nodup_map deletion.distinct inRows member same
  have asked : (removals placed)[index]? = some (one.2.id, .delete one.1.id) := by
    simp [removals, found]
  obtain ⟨handle, flight, late, there, place, request, state⟩ :=
    heard.answers index _ response asked told
  subst mine
  exact ⟨handle, flight, response, late, there, place.trans node, request, state, confirming⟩

theorem discard_inv {fileId : Uuid} {placed : List (Shard × StorageNode)} {replies : List Reply}
    {before after : Shared}
    (done : exec thread before (.commit [.deleteShards (confirmed placed replies)]) () = some after)
    (life : Life thread before after) (read : deletion.Read fileId placed before)
    (cleared : fileId = deletion.fileId → deletion.Cleared (confirmed placed replies) before)
    (inv : deletion.Inv before) : deletion.Inv after := by
  intro revoked
  have already : Revoked deletion.fileId before := by
    rcases revoked_exec done revoked with old | ⟨writes, deletedAt, linkVersion, same, revokes⟩
    · exact old
    · cases same
      simp at revokes
  have tracked := inv already
  obtain ⟨transaction, db, same, enabled, committed, recorded⟩ := life_commit done life
  -- Its own rows go only with a confirmation; a pass over another file names none of them.
  by_cases mine : fileId = deletion.fileId
  · have shards : after.db.shards =
        before.db.shards.filter (·.id ∉ confirmed placed replies) := by
      rw [← same] at committed
      rw [recorded]
      cases committed
      rfl
    constructor
    case used => exact used_mono life tracked.used
    case rows =>
      intro row member named
      rw [shards] at member
      exact tracked.rows row (List.mem_filter.mp member).1 named
    case covered =>
      intro row member
      rw [shards, exec_confirmed done]
      by_cases removed : row.id ∈ confirmed placed replies
      · exact Or.inr (cleared mine row member removed)
      · exact (tracked.covered row member).imp
          (fun present => List.mem_filter.mpr ⟨present, by simpa using removed⟩) id
    case length =>
      rw [recorded]
      exact tracked.length
    case absent =>
      intro row member confirmed
      rw [Absent, exec_objects done]
      exact tracked.absent row member ((exec_confirmed done row).mp confirmed)
  · refine exec_tracked done life ?_ tracked
    have result : after.db = db := by rw [recorded]; rfl
    rw [result]
    refine commit_rows enabled committed tracked.used ?_ ?_ ?_
    · rw [← same]
      simp
    · intro row _ _ new node
      rw [← same]
      simp
    · intro row present owner ids discards
      rw [← same] at discards
      obtain rfl : ids = confirmed placed replies := by simpa using discards
      intro removed
      obtain ⟨one, member, named⟩ := confirmed_subset placed replies row.id removed
      have other := (read.belongs one member).2 row present named.symm
      exact mine (other.symm.trans owner)

/-- A removal pass of any deleted file. -/
theorem removeDeletedShards_cleans (file : File) (revoked : Revoked file.id state)
    (kept : ∀ other before after, Life other before after → holds before → holds after)
    (also : holds state) :
    Cleans platform deletion post thread (fun _ later => holds later) (removeDeletedShards file)
      state := by
  have stays : Stable (deletion.layer.contract post) thread holds := stable_of_life kept
  have plain : ∀ {request : Op}, commits request = [] → ∀ writes, request = .commit writes →
      ∀ ids, .deleteShards ids ∉ writes := by
    rintro request reads writes rfl
    cases reads
  apply layer_op (stable_and (revoked_stable file.id) stays) ⟨revoked, also⟩
  intro before placed after wf inv held done life may
  have moved := step_move wf inv done life may (plain rfl)
  refine ⟨moved, ?_⟩
  obtain ⟨order, same⟩ := Option.ite_none_right_eq_some.mp done
  cases same
  have read : deletion.Read file.id placed before := select_read wf inv held.1 order
  apply layer_gather (if file.id = deletion.fileId then deletion.base else 0) (layer_lasts deletion)
    (stable_and (read_stable file.id placed) stays) ⟨read, held.2⟩
  · intro shared inv held
    split
    · rename_i mine
      exact (inv (mine ▸ held.1.revoked)).length
    · exact Nat.zero_le _
  · intro first request answer last asks wf inv held done life may
    have reads : commits request = [] := by
      rcases asks with rfl | ⟨handles, rfl⟩ <;> rfl
    exact ⟨step_move wf inv done life may (plain reads), read_life life held.1,
      kept thread first last life held.2⟩
  · intro replies later held heard
    have cleared : file.id = deletion.fileId →
        deletion.Cleared (confirmed placed replies) later := by
      intro mine
      rw [if_pos mine] at heard
      exact heard_cleared (mine ▸ held.1) heard
    have lasts : Stable (deletion.layer.contract post) thread fun shared =>
        file.id = deletion.fileId → deletion.Cleared (confirmed placed replies) shared :=
      fun first last wf wfLast relies held mine =>
        cleared_stable (confirmed placed replies) first last wf wfLast relies (held mine)
    apply layer_op (stable_and (stable_and (read_stable file.id placed) stays) lasts)
      ⟨held, cleared⟩
    intro first answer last wf inv held done life may
    refine ⟨⟨?_, exec_lasting done, fun row => (exec_confirmed done row).mpr⟩, ?_⟩
    · exact discard_inv done life held.1.1 held.2 inv
    · refine safe_ret stays (kept thread first last life held.1.2) ?_
      exact fun _ _ held => held

theorem gcPendingFiles_cleans (files : List File) (revoked : ∀ file ∈ files, Revoked file.id state) :
    Cleans platform deletion post thread (fun _ _ => True) (gcPendingFiles files) state := by
  induction files generalizing state with
  | nil => exact fun _ _ _ => trivial
  | cons file rest ih =>
      have others : Cleans platform deletion post thread
          (fun _ later => ∀ other ∈ rest, Revoked other.id later) (removeDeletedShards file) state := by
        apply removeDeletedShards_cleans file (revoked file List.mem_cons_self)
        · exact fun _ _ _ life held other member => revoked_life life (held other member)
        · exact fun other member => revoked other (List.mem_cons_of_mem _ member)
      exact safe_bind others fun _ later _ held => ih held

theorem gcDeletedFiles_cleans :
    Cleans platform deletion post thread (fun _ _ => True) gcDeletedFiles state := by
  apply layer_op (stable_const True) trivial
  intro before pending after wf inv _ done life may
  refine ⟨step_move wf inv done life may (by rintro writes ⟨⟩), ?_⟩
  obtain ⟨order, same⟩ := Option.ite_none_right_eq_some.mp done
  cases same
  apply gcPendingFiles_cleans
  intro file member
  obtain ⟨present, selected⟩ := List.mem_filter.mp (order.mem_iff.mp member)
  simp only [Bool.and_eq_true, decide_eq_true_eq] at selected
  obtain ⟨deleter, deletedAt, linkVersion, event, logged, -⟩ := wf.revoked file present selected.1
  exact ⟨_, logged, deletedAt, linkVersion, by simp [Transaction.writes]⟩

theorem deleteFile_cleans (userId fileId : Uuid) (ipAddress : Option Text) :
    Cleans platform deletion post thread (fun _ _ => True)
      (Routers.deleteFile userId fileId ipAddress) state := by
  apply layer_op (stable_const True) trivial
  intro before rows after wf inv _ done life may
  refine ⟨step_move wf inv done life may (by rintro writes ⟨⟩), ?_⟩
  dsimp only [Prog.ret_bind, Prog.pure_eq]
  cases rows.head? with
  | none => exact fun _ _ _ => trivial
  | some file =>
      apply layer_op (stable_const True) trivial
      intro first deletedAt middle wf inv _ done life may
      refine ⟨step_move wf inv done life may (by rintro writes ⟨⟩), ?_⟩
      apply layer_op (stable_const True) trivial
      intro middle answer last wf inv _ done life may
      constructor
      · apply step_move wf inv done life may
        rintro writes ⟨⟩ ids
        simp [record]
      · have revoked : Revoked file.id last := by
          have logged := exec_log done
          refine ⟨_, logged ▸ List.mem_append_right _ List.mem_cons_self, deletedAt,
            file.linkVersion + 1, List.mem_cons_self⟩
        apply safe_map
        apply safe_map
        exact removeDeletedShards_cleans file revoked (fun _ _ _ _ _ => trivial) trivial

theorem program_cleans (job : Job) :
    Cleans platform deletion post thread (fun _ _ => True) (program platform job) state := by
  have other : ¬ (∃ ids, mayWrite job (.deleteShards ids)) →
      Cleans platform deletion post thread (fun _ _ => True) (program platform job) state := by
    intro never
    exact other_cleans (fun ids may => never ⟨ids, may⟩) (program_within job)
  cases job with
  | deleteFile userId fileId ipAddress =>
      apply safe_map
      exact deleteFile_cleans userId fileId ipAddress
  | gcDeletedFiles => exact safe_bind gcDeletedFiles_cleans fun _ _ _ _ _ _ _ => trivial
  | _ => exact other fun may => may.elim fun _ may => may

end Jobs

/-- In every run under these rules, from the first step of the service on. -/
theorem run_cleans {platform : Platform} {deletion : Deletion} {clock : Nat}
    {labels : List ServiceLabel} {config : ServiceConfig}
    (run : Run (Guarded (fun config label => deletion.allowed config.shared label)
      (Step (service platform))) (deployed clock) labels config) : deletion.Inv config.shared := by
  have start : AllSafe (service platform) (deletion.layer.contract fun _ _ _ _ => True)
      (deployed clock) := by
    refine ⟨⟨deployed_wellFormed clock, ?_⟩, fun thread job rest running => by cases running⟩
    rintro ⟨entry, member, -⟩
    cases member
  have all := layer_run (layer_sound platform deletion)
    (fun thread job shared _ _ _ _ => program_cleans job) .refl start run
  exact all.inv.2

end SecureFileSystem.Removal
