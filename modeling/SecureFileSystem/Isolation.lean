import SecureFileSystem.Conduct
import SecureFileSystem.Objects

/-!
What one user sees of another: nothing. Two services that agree on a user's own
rows and objects answer the user's requests alike, step by step, and no request
of the user touches a row or an object of anybody else.
-/

namespace SecureFileSystem.Isolation

open Base Database Fleet Session Program Transition Files Routers Service Conduct Wire
  Objects

def owns (user : Uuid) (db : Db) (fileId : Uuid) : Bool :=
  db.files.any fun file => decide (file.id = fileId ∧ file.ownerUserId = user)

def ownFiles (user : Uuid) (db : Db) : List File := db.files.filter (·.ownerUserId = user)

def ownShards (user : Uuid) (db : Db) : List Shard := db.shards.filter (owns user db ·.fileId)

/-- The same rows of this user and the same nodes, in any order. -/
structure Agree (user : Uuid) (left right : Db) : Prop where
  files : (ownFiles user left).Perm (ownFiles user right)
  shards : (ownShards user left).Perm (ownShards user right)
  nodes : left.nodes.Perm right.nodes

def Mine (user : Uuid) (db : Db) (id : Uuid) : Prop :=
  ∃ shard ∈ db.shards, owns user db shard.fileId = true ∧ shard.id = id

/-- One request in two worlds: it has the same fate if it concerns the user's objects. -/
structure Same (mine : Uuid → Prop) (left right : Flight Tid) : Prop where
  sent : sent left = sent right
  pending : left.state = .pending ↔ right.state = .pending
  state : (∀ id, left.request.shard = some id → mine id) → left.state = right.state

structure Paired (mine : Uuid → Prop) (left right : List (Flight Tid)) : Prop where
  length : left.length = right.length
  each : ∀ (index : Nat) (one other : Flight Tid), left[index]? = some one →
    right[index]? = some other → Same mine one other

structure Alike (user : Uuid) (mine : Uuid → Prop) (left right : Shared) : Prop where
  clock : left.clock = right.clock
  db : Agree user left.db right.db
  objects : ∀ node id, mine id → left.objects node id = right.objects node id
  flights : Paired mine left.flights right.flights

/-- What a request of the user has found out: files, shard ids, and its calls. -/
structure Knowledge where
  files : Uuid → Prop
  shards : Uuid → Prop
  handles : Nat → Prop

def Knowledge.learn (known : Knowledge) : (asked : Op) → Res asked → Knowledge
  | .selectFiles _, rows =>
      { known with files := fun id => id ∈ rows.map (·.id) ∨ known.files id }
  | .selectPlaced _, rows =>
      { known with shards := fun id => id ∈ rows.map (·.1.id) ∨ known.shards id }
  | .send _, handles => { known with handles := fun handle => handle ∈ handles ∨ known.handles handle }
  | _, _ => known

inductive Modest (known : Knowledge) : List Write → Prop
  | audit (event : AuditEvent) (fileId : Uuid) (named : event.fileId = some fileId)
      (mine : known.files fileId) : Modest known [.audit event]
  | revoke (event : AuditEvent) (fileId : Uuid) (deletedAt linkVersion : Nat)
      (named : event.fileId = some fileId) (mine : known.files fileId) :
      Modest known [.setDeleted fileId deletedAt linkVersion, .audit event]
  | discard (ids : List Uuid) (mine : ∀ id ∈ ids, known.shards id) :
      Modest known [.deleteShards ids]

/-- What a request of the user may ask for: its own rows, and the removal of its own objects. -/
inductive May (user : Uuid) (known : Knowledge) : Op → Prop
  | now : May user known .now
  | files (wanted : File → Bool) (mine : ∀ file, wanted file = true → file.ownerUserId = user) :
      May user known (.selectFiles fun _ file => wanted file)
  | placed (wanted : Shard → StorageNode → Bool)
      (mine : ∀ shard node, wanted shard node = true → known.files shard.fileId) :
      May user known (.selectPlaced fun _ shard node => wanted shard node)
  | commit (writes : List Write) (modest : Modest known writes) : May user known (.commit writes)
  | send (requests : List (Uuid × NodeRequest))
      (mine : ∀ one ∈ requests, ∃ id, one.2 = .delete id ∧ known.shards id) :
      May user known (.send requests)
  | await (handles : List Nat) (mine : ∀ handle ∈ handles, known.handles handle) :
      May user known (.await handles)

abbrev Scoped {Out : Type} (user : Uuid) (known : Knowledge) (prog : Async Out) : Prop :=
  prog.Informed (May user) Knowledge.learn (fun _ _ => True) known

section Programs
variable {user : Uuid} {known : Knowledge}

theorem availability_scoped (files : List File) (mine : ∀ file ∈ files, known.files file.id) :
    Scoped user known (availability files) := by
  unfold availability
  split
  · trivial
  · constructor
    · apply May.placed fun shard _ => decide (shard.fileId ∈ files.map (·.id))
      intro shard _ chosen
      obtain ⟨file, member, same⟩ := List.mem_map.mp (of_decide_eq_true chosen)
      exact same ▸ mine file member
    · exact fun _ => trivial

theorem scoped_owned {Out : Type} (fileId : Uuid) {next : Option File → Async Out}
    (rest : ∀ found more, (∀ file ∈ found, more.files file.id) → Scoped user more (next found)) :
    Scoped user known ((ownedFile user fileId).bind next) := by
  constructor
  · apply May.files fun file =>
      file.id = fileId && file.ownerUserId = user && file.status = .available
    intro file chosen
    simp only [Bool.and_eq_true, decide_eq_true_eq] at chosen
    exact chosen.1.2
  · intro rows
    apply rest
    intro file found
    exact Or.inl (List.mem_map_of_mem (List.mem_of_mem_head? found))

theorem listFiles_scoped (limit offset : Nat) :
    Scoped user known (listFiles user limit offset) := by
  constructor
  · apply May.files fun file => file.ownerUserId = user && file.status = .available
    intro file chosen
    simp only [Bool.and_eq_true, decide_eq_true_eq] at chosen
    exact chosen.1
  · intro rows
    change Prog.Informed _ _ _ _ ((availability _).bind _)
    refine Prog.informed_bind (availability_scoped _ ?_) fun _ _ _ => trivial
    intro file member
    have sorted := List.mem_of_mem_drop (List.mem_of_mem_take member)
    exact Or.inl (List.mem_map_of_mem ((List.perm_insertionSort _ _).mem_iff.mp sorted))

theorem getFile_scoped (fileId : Uuid) : Scoped user known (Routers.getFile user fileId) := by
  apply scoped_owned
  intro found more mine
  cases found with
  | none => trivial
  | some file =>
      refine Prog.informed_bind (availability_scoped _ ?_) fun _ _ _ => trivial
      intro other member
      rw [List.mem_singleton.mp member]
      exact mine file rfl

theorem createLink_scoped (platform : Platform) (request : LinkRequest)
    (same : request.userId = user) : Scoped user known (createLink platform request) := by
  subst same
  unfold createLink
  split
  · trivial
  split
  · trivial
  apply scoped_owned
  intro found more mine
  cases found with
  | none => trivial
  | some file =>
      refine ⟨.now, fun time => ⟨.commit _ (.audit _ file.id rfl (mine file rfl)), fun _ => ?_⟩⟩
      dsimp only [Prog.bind]
      split <;> trivial

theorem deleteFile_scoped (fileId : Uuid) (ipAddress : Option Text) :
    Scoped user known (Routers.deleteFile user fileId ipAddress) := by
  apply scoped_owned
  intro found more mine
  cases found with
  | none => trivial
  | some file =>
      have own := mine file rfl
      refine ⟨.now, fun time => ⟨.commit _ (.revoke _ file.id _ _ rfl own), fun _ => ?_⟩⟩
      constructor
      · apply May.placed fun shard _ => decide (shard.fileId = file.id)
        intro shard _ chosen
        exact of_decide_eq_true chosen ▸ own
      · intro placed
        have listed : ∀ id ∈ placed.map (·.1.id), id ∈ placed.map (·.1.id) ∨ more.shards id :=
          fun id member => Or.inl member
        refine ⟨.send _ ?_, fun handles => ⟨.await _ fun handle member => Or.inl member,
          fun replies => ⟨.commit _ (.discard _ ?_), fun _ => trivial⟩⟩⟩
        · intro one member
          obtain ⟨row, inside, rfl⟩ := List.mem_map.mp member
          exact ⟨row.1.id, rfl, listed _ (List.mem_map_of_mem inside)⟩
        · intro id member
          obtain ⟨row, inside, rfl⟩ := confirmed_subset placed replies id member
          exact listed _ (List.mem_map_of_mem inside)

end Programs

structure Spares (user : Uuid) (before after : Shared) : Prop where
  ids : after.db.files.map (·.id) = before.db.files.map (·.id)
  owns : ∀ fileId, owns user after.db fileId = owns user before.db fileId
  shards : after.db.shards.Sublist before.db.shards
  otherFiles : after.db.files.filter (·.ownerUserId ≠ user) =
    before.db.files.filter (·.ownerUserId ≠ user)
  otherShards : after.db.shards.filter (!Isolation.owns user before.db ·.fileId) =
    before.db.shards.filter (!Isolation.owns user before.db ·.fileId)
  lasting : Lasting before after

structure Knows (user : Uuid) (mine : Uuid → Prop) (known : Knowledge) (shared : Shared) : Prop where
  files : ∀ fileId, known.files fileId → owns user shared.db fileId = true
  shards : ∀ id, known.shards id → mine id ∧
    ∀ shard ∈ shared.db.shards, shard.id = id → owns user shared.db shard.fileId = true
  handles : ∀ handle, known.handles handle → ∃ flight, shared.flights[handle]? = some flight ∧
    ∀ id, flight.request.shard = some id → mine id

/-- The keys of the tables, and which ids are the user's. -/
structure Keyed (user : Uuid) (mine : Uuid → Prop) (db : Db) : Prop where
  files : (db.files.map (·.id)).Nodup
  shards : (db.shards.map (·.id)).Nodup
  mine : ∀ shard ∈ db.shards, owns user db shard.fileId = true → mine shard.id

section Step
variable {platform : Platform} {user : Uuid} {mine : Uuid → Prop} {known : Knowledge}
  {before after : Shared}

theorem spares_keyed (spares : Spares user before after) (keyed : Keyed user mine before.db) :
    Keyed user mine after.db := by
  constructor
  · rw [spares.ids]
    exact keyed.files
  · exact keyed.shards.sublist (spares.shards.map _)
  · intro shard member owned
    rw [spares.owns] at owned
    exact keyed.mine shard (spares.shards.subset member) owned

theorem spares_knows (spares : Spares user before after) (knows : Knows user mine known before) :
    Knows user mine known after := by
  constructor
  · intro fileId told
    rw [spares.owns]
    exact knows.files fileId told
  · intro id told
    obtain ⟨own, rows⟩ := knows.shards id told
    refine ⟨own, fun shard member named => ?_⟩
    rw [spares.owns]
    exact rows shard (spares.shards.subset member) named
  · intro handle told
    obtain ⟨flight, found, names⟩ := knows.handles handle told
    obtain ⟨later, there, same⟩ := spares.lasting handle flight found
    have request : later.request = flight.request := congrArg (·.2.2) same
    exact ⟨later, there, fun id named => names id (request ▸ named)⟩

theorem spares_refl (shared : Shared) : Spares user shared shared :=
  ⟨rfl, fun _ => rfl, List.Sublist.refl _, rfl, rfl, fun _ flight found => ⟨flight, found, rfl⟩⟩

theorem spares_rows (files : after.db.files = before.db.files)
    (shards : after.db.shards = before.db.shards) (lasting : Lasting before after) :
    Spares user before after := by
  refine ⟨by rw [files], fun fileId => ?_, by rw [shards], by rw [files], by rw [shards], lasting⟩
  unfold owns
  rw [files]

theorem owns_file (keyed : Keyed user mine before.db) {file : File}
    (present : file ∈ before.db.files) (owned : owns user before.db file.id = true) :
    file.ownerUserId = user := by
  obtain ⟨own, member, facts⟩ := List.any_eq_true.mp owned
  obtain ⟨same, owner⟩ := of_decide_eq_true facts
  rw [← List.inj_on_of_nodup_map keyed.files member present same]
  exact owner

theorem spares_update {fileId : Uuid} (change : File → File) (keyed : Keyed user mine before.db)
    (owned : owns user before.db fileId = true)
    (kept : ∀ file, (change file).id = file.id ∧ (change file).ownerUserId = file.ownerUserId)
    (files : after.db.files = File.update fileId change before.db.files)
    (shards : after.db.shards = before.db.shards) (lasting : Lasting before after) :
    Spares user before after := by
  have same : ∀ file : File, (if file.id = fileId then change file else file).id = file.id ∧
      (if file.id = fileId then change file else file).ownerUserId = file.ownerUserId := by
    intro file
    split
    · exact kept file
    · exact ⟨rfl, rfl⟩
  constructor
  case ids =>
    rw [files, File.update, List.map_map]
    exact List.map_congr_left fun file _ => (same file).1
  case owns =>
    intro other
    unfold Isolation.owns
    rw [files, File.update, List.any_map]
    congr 1
    funext file
    simp only [Function.comp_apply, (same file).1, (same file).2]
  case shards => rw [shards]
  case otherFiles =>
    rw [files, File.update, List.filter_map]
    have others : before.db.files.filter ((fun file : File => decide (file.ownerUserId ≠ user)) ∘
        fun file => if file.id = fileId then change file else file) =
        before.db.files.filter fun file => decide (file.ownerUserId ≠ user) := by
      apply List.filter_congr
      intro file _
      simp only [Function.comp_apply, (same file).2]
    rw [others]
    conv_rhs => rw [← List.map_id (before.db.files.filter fun file => _)]
    apply List.map_congr_left
    intro file member
    obtain ⟨present, foreign⟩ := List.mem_filter.mp member
    have apart : file.id ≠ fileId := by
      rintro rfl
      exact of_decide_eq_true foreign (owns_file keyed present owned)
    exact if_neg apart
  case otherShards => rw [shards]
  case lasting => exact lasting

/-- A commit of the user touches the user's rows only. -/
theorem commit_spares {writes : List Write} {db : Db} (keyed : Keyed user mine before.db)
    (knows : Knows user mine known before) (modest : Modest known writes)
    (done : before.db.commit writes = some db) (changed : after.db = db)
    (lasting : Lasting before after) : Spares user before after := by
  subst changed
  cases modest with
  | audit event fileId named own =>
      obtain ⟨effect, -⟩ := LifeCycle.commit_effect (.audit event) (by simp) done
      exact spares_rows (congrArg LifeCycle.Catalog.files effect)
        (congrArg LifeCycle.Catalog.shards effect) lasting
  | revoke event fileId deletedAt linkVersion named own =>
      obtain ⟨effect, -⟩ := LifeCycle.commit_effect (.revoke fileId deletedAt linkVersion event)
        (by simp) done
      exact spares_update (LifeCycle.revokeFile deletedAt linkVersion) keyed (knows.files fileId own)
        (fun _ => ⟨rfl, rfl⟩) (congrArg LifeCycle.Catalog.files effect)
        (congrArg LifeCycle.Catalog.shards effect) lasting
  | discard ids own =>
      obtain ⟨effect, -⟩ := LifeCycle.commit_effect (.discard ids) (by simp) done
      have files : after.db.files = before.db.files := congrArg LifeCycle.Catalog.files effect
      have shards : after.db.shards = before.db.shards.filter (·.id ∉ ids) :=
        congrArg LifeCycle.Catalog.shards effect
      constructor
      case ids => rw [files]
      case owns =>
        intro fileId
        unfold Isolation.owns
        rw [files]
      case shards =>
        rw [shards]
        exact List.filter_sublist
      case otherFiles => rw [files]
      case otherShards =>
        rw [shards, List.filter_filter]
        apply List.filter_congr
        intro shard member
        by_cases foreign : Isolation.owns user before.db shard.fileId = true
        · simp [foreign]
        · have kept : shard.id ∉ ids := fun listed =>
            foreign ((knows.shards shard.id (own _ listed)).2 shard member rfl)
          simp [kept]
      case lasting => exact lasting

theorem act_spares {thread : Tid} {asked : Op} {answer : Res asked}
    (keyed : Keyed user mine before.db) (knows : Knows user mine known before)
    (may : May user known asked) (done : exec thread before asked answer = some after) :
    Spares user before after := by
  have lasting := exec_lasting done
  cases may with
  | commit writes modest =>
      obtain ⟨db, committed, rfl⟩ := Option.map_eq_some_iff.mp done
      exact commit_spares keyed knows modest committed rfl lasting
  | _ =>
      have undisturbed := Interference.exec_quiet (by trivial) done
      exact spares_rows undisturbed.files undisturbed.shards lasting

theorem world_spares {event : Event} (done : environment platform before event = some after) :
    Spares user before after := by
  have undisturbed := Interference.environment_undisturbed event done
  exact spares_rows undisturbed.files undisturbed.shards
    (drifts_lasting (environment_drifts event done))

/-- What an answer teaches is right. -/
theorem act_knows {thread : Tid} {asked : Op} {answer : Res asked}
    (keyed : Keyed user mine before.db) (knows : Knows user mine known before)
    (may : May user known asked) (done : exec thread before asked answer = some after) :
    Knows user mine (known.learn asked answer) after := by
  have later := spares_knows (act_spares keyed knows may done) knows
  cases may with
  | files wanted own =>
      obtain ⟨order, same⟩ := Option.ite_none_right_eq_some.mp done
      cases same
      refine ⟨?_, later.shards, later.handles⟩
      rintro fileId (listed | told)
      · obtain ⟨file, member, rfl⟩ := List.mem_map.mp listed
        obtain ⟨present, chosen⟩ := List.mem_filter.mp (order.mem_iff.mp member)
        exact List.any_eq_true.mpr ⟨file, present, decide_eq_true ⟨rfl, own file chosen⟩⟩
      · exact later.files fileId told
  | placed wanted own =>
      obtain ⟨order, same⟩ := Option.ite_none_right_eq_some.mp done
      cases same
      refine ⟨later.files, ?_, later.handles⟩
      rintro id (listed | told)
      · obtain ⟨row, member, rfl⟩ := List.mem_map.mp listed
        obtain ⟨joined, chosen⟩ := List.mem_filter.mp (order.mem_iff.mp member)
        have present := (placed_shard joined).1
        have owned := knows.files _ (own _ _ chosen)
        refine ⟨keyed.mine row.1 present owned, fun shard inside named => ?_⟩
        rw [List.inj_on_of_nodup_map keyed.shards inside present named]
        exact owned
      · exact later.shards id told
  | send requests own =>
      obtain ⟨rfl, on⟩ := send_onWire done
      refine ⟨later.files, later.shards, ?_⟩
      rintro handle (sent | told)
      · have bounds := List.mem_range'_1.mp sent
        have inside : handle - before.flights.length < requests.length := by omega
        obtain ⟨flight, found, same⟩ := on _ _ (List.getElem?_eq_getElem inside)
        rw [Nat.add_sub_cancel' bounds.1] at found
        refine ⟨flight, found, fun id named => ?_⟩
        obtain ⟨other, delete, told⟩ := own _ (List.getElem_mem inside)
        have request : flight.request = .delete other := (congrArg (·.2.2) same).trans delete
        rw [request] at named
        cases named
        exact (knows.shards id told).1
      · exact later.handles handle told
  | now => exact later
  | commit _ _ => exact later
  | await _ _ => exact later

end Step

end SecureFileSystem.Isolation
