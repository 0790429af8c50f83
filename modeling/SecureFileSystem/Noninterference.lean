import SecureFileSystem.Isolation

/-!
Two runs of one user's requests. What one world can answer the other can, with
the same rows, the same replies of the nodes and the same response; so the
traces of the two are the same.
-/

namespace SecureFileSystem.Noninterference

open Base Database Fleet Session Program Transition RelyGuarantee Files Routers Service Conduct Wire
  Objects Isolation

section Agreement
variable {user : Uuid} {left right : Db}

theorem owns_iff {db : Db} {fileId : Uuid} :
    owns user db fileId = true ↔ fileId ∈ (ownFiles user db).map (·.id) := by
  constructor
  · intro owned
    obtain ⟨file, present, facts⟩ := List.any_eq_true.mp owned
    obtain ⟨rfl, owner⟩ := of_decide_eq_true facts
    exact List.mem_map_of_mem (List.mem_filter.mpr ⟨present, decide_eq_true owner⟩)
  · intro listed
    obtain ⟨file, member, rfl⟩ := List.mem_map.mp listed
    obtain ⟨present, owner⟩ := List.mem_filter.mp member
    exact List.any_eq_true.mpr ⟨file, present, decide_eq_true ⟨rfl, of_decide_eq_true owner⟩⟩

theorem agree_owns (agree : Agree user left right) (fileId : Uuid) :
    owns user left fileId = owns user right fileId := by
  rw [Bool.eq_iff_iff, owns_iff, owns_iff]
  exact (agree.files.map _).mem_iff

theorem agree_symm (agree : Agree user left right) : Agree user right left :=
  ⟨agree.files.symm, agree.shards.symm, agree.nodes.symm⟩

theorem agree_selected (agree : Agree user left right) {wanted : File → Bool}
    (own : ∀ file, wanted file = true → file.ownerUserId = user) :
    (left.files.filter wanted).Perm (right.files.filter wanted) := by
  have inside : ∀ db : Db, db.files.filter wanted = (ownFiles user db).filter wanted := by
    intro db
    rw [ownFiles, List.filter_filter]
    apply List.filter_congr
    intro file _
    by_cases chosen : wanted file = true
    · simp [chosen, own file chosen]
    · simp [chosen]
  rw [inside left, inside right]
  exact agree.files.filter wanted

theorem flatMap_filter {Item Row : Type} (items : List Item) (rows : Item → List Row)
    (kept : Item → Bool) (wanted : Row → Bool)
    (only : ∀ item, kept item = false → ∀ row ∈ rows item, wanted row = false) :
    (items.flatMap rows).filter wanted = ((items.filter kept).flatMap rows).filter wanted := by
  induction items with
  | nil => rfl
  | cons item rest ih =>
      rw [List.flatMap_cons, List.filter_append, ih]
      by_cases keep : kept item = true
      · rw [List.filter_cons_of_pos keep, List.flatMap_cons, List.filter_append]
      · have none : (rows item).filter wanted = [] := by
          rw [List.filter_eq_nil_iff]
          intro row member
          simp [only item (by simpa using keep) row member]
        rw [List.filter_cons_of_neg keep, none, List.nil_append]

theorem agree_placed (agree : Agree user left right) {wanted : Shard → StorageNode → Bool}
    (own : ∀ shard node, wanted shard node = true → owns user left shard.fileId = true) :
    (left.placed.filter fun row => wanted row.1 row.2).Perm
      (right.placed.filter fun row => wanted row.1 row.2) := by
  have inside : ∀ db : Db, (∀ fileId, owns user left fileId = owns user db fileId) →
      db.placed.filter (fun row => wanted row.1 row.2) =
        ((ownShards user db).flatMap fun shard =>
          (db.nodes.filter (·.id = shard.nodeId)).map (shard, ·)).filter
            fun row => wanted row.1 row.2 := by
    intro db same
    apply flatMap_filter
    intro shard foreign row member
    obtain ⟨node, -, rfl⟩ := List.mem_map.mp member
    by_contra chosen
    have owned := own shard node (by simpa using chosen)
    rw [same, foreign] at owned
    cases owned
  rw [inside left fun _ => rfl, inside right (agree_owns agree)]
  apply List.Perm.filter
  refine (List.Perm.flatMap_right _ agree.shards).trans (List.Perm.flatMap_left _ ?_)
  intro shard _
  exact (agree.nodes.filter _).map _

end Agreement

section Flights
variable {mine : Uuid → Prop} {left right : List (Flight Tid)}

theorem same_symm {one other : Flight Tid} (same : Same mine one other) : Same mine other one := by
  have request : one.request = other.request := congrArg (·.2.2) same.sent
  exact ⟨same.sent.symm, same.pending.symm, fun own => (same.state (request ▸ own)).symm⟩

theorem paired_symm (paired : Paired mine left right) : Paired mine right left :=
  ⟨paired.length.symm, fun index one other found there =>
    same_symm (paired.each index other one there found)⟩

theorem paired_get (paired : Paired mine left right) {index : Nat} {one : Flight Tid}
    (found : left[index]? = some one) : ∃ other, right[index]? = some other ∧ Same mine one other := by
  have inside : index < right.length := by
    rw [← paired.length]
    exact (List.getElem?_eq_some_iff.mp found).1
  have there := List.getElem?_eq_getElem inside
  exact ⟨_, there, paired.each index one _ found there⟩

theorem paired_set (paired : Paired mine left right) {index : Nat} {one other : Flight Tid}
    (same : Same mine one other) : Paired mine (left.set index one) (right.set index other) := by
  refine ⟨by simp [paired.length], fun position first second found there => ?_⟩
  rw [List.getElem?_set] at found there
  by_cases here : index = position
  · rw [if_pos here] at found there
    obtain ⟨-, got⟩ := Option.ite_none_right_eq_some.mp found
    obtain ⟨-, gained⟩ := Option.ite_none_right_eq_some.mp there
    cases got
    cases gained
    exact same
  · rw [if_neg here] at found there
    exact paired.each position first second found there

theorem paired_launch (paired : Paired mine left right) (sender : Tid)
    (requests : List (Uuid × NodeRequest)) :
    Paired mine (left ++ launch sender requests) (right ++ launch sender requests) := by
  refine ⟨by simp [paired.length], fun index one other found there => ?_⟩
  rw [List.getElem?_append] at found there
  rw [← paired.length] at there
  by_cases old : index < left.length
  · rw [if_pos old] at found there
    exact paired.each index one other found there
  · rw [if_neg old] at found there
    obtain rfl := Option.some.inj (found.symm.trans there)
    exact ⟨rfl, Iff.rfl, fun _ => rfl⟩

/-- Clients that wait for the user's requests can be told the same. -/
theorem paired_await {after : List (Flight Tid)} {handles : List Nat} {replies : List Reply}
    (paired : Paired mine left right)
    (own : ∀ handle ∈ handles, ∀ flight, left[handle]? = some flight →
      ∀ id, flight.request.shard = some id → mine id)
    (done : awaitReplies left handles replies = some after) :
    ∃ last, awaitReplies right handles replies = some last ∧ Paired mine after last := by
  induction handles generalizing left right replies with
  | nil =>
      cases replies with
      | nil =>
          cases done
          exact ⟨right, rfl, paired⟩
      | cons reply rest => cases done
  | cons handle rest ih =>
      cases replies with
      | nil => cases done
      | cons reply others =>
          simp only [awaitReplies] at done
          split at done
          · rename_i one found
            obtain ⟨told, further⟩ := Option.ite_none_right_eq_some.mp done
            obtain ⟨other, there, same⟩ := paired_get paired found
            have state := same.state (own handle List.mem_cons_self one found)
            have replied : other.mayReply reply = true := by
              cases reply with
              | none => rfl
              | some response => simpa [Flight.mayReply, state] using told
            have next : Same mine { one with reply := some reply }
                { other with reply := some reply } :=
              ⟨same.sent, same.pending, same.state⟩
            have named : ∀ position ∈ rest, ∀ flight,
                (left.set handle { one with reply := some reply })[position]? = some flight →
                ∀ id, flight.request.shard = some id → mine id := by
              intro position member flight here id named
              rcases set_flight _ found here with old | ⟨rfl, old, rfl⟩
              · exact own position (List.mem_cons_of_mem _ member) flight old id named
              · exact own position List.mem_cons_self one old id named
            obtain ⟨last, waited, pairs⟩ := ih (paired_set paired next) named further
            refine ⟨last, ?_, pairs⟩
            simp only [awaitReplies, there, replied, if_true]
            exact waited
          · cases done

end Flights

section Steps
variable {platform : Platform} {user : Uuid} {mine : Uuid → Prop} {known : Knowledge}
  {left right after : Shared}

theorem alike_symm (alike : Alike user mine left right) : Alike user mine right left :=
  ⟨alike.clock.symm, agree_symm alike.db, fun node id own => (alike.objects node id own).symm,
    paired_symm alike.flights⟩

theorem own_update (db : Db) (fileId : Uuid) (change : File → File) (audit : List AuditEvent)
    (kept : ∀ file, (change file).id = file.id ∧ (change file).ownerUserId = file.ownerUserId) :
    ownFiles user { db with files := File.update fileId change db.files, audit := audit } =
        (ownFiles user db).map (fun file => if file.id = fileId then change file else file) ∧
      ownShards user { db with files := File.update fileId change db.files, audit := audit } =
        ownShards user db := by
  have same : ∀ file : File, (if file.id = fileId then change file else file).id = file.id ∧
      (if file.id = fileId then change file else file).ownerUserId = file.ownerUserId := by
    intro file
    split
    · exact kept file
    · exact ⟨rfl, rfl⟩
  constructor
  · unfold ownFiles File.update
    rw [List.filter_map]
    congr 1
    apply List.filter_congr
    intro file _
    simp only [Function.comp_apply, (same file).2]
  · unfold ownShards
    apply List.filter_congr
    intro shard _
    unfold owns File.update
    rw [List.any_map]
    congr 1
    funext file
    simp only [Function.comp_apply, (same file).1, (same file).2]

theorem agree_commit {leftDb rightDb db : Db} {writes : List Write}
    (agree : Agree user leftDb rightDb)
    (known_files : ∀ fileId, known.files fileId → owns user leftDb fileId = true)
    (modest : Modest known writes) (done : leftDb.commit writes = some db) :
    ∃ other, rightDb.commit writes = some other ∧ Agree user db other := by
  -- The other world has the file as well: the checks of the database pass there too.
  have present : ∀ fileId, known.files fileId → fileId ∈ rightDb.files.map (·.id) := by
    intro fileId told
    have owned := known_files fileId told
    rw [agree_owns agree, owns_iff] at owned
    exact (List.filter_sublist.map _).subset owned
  cases modest with
  | audit event fileId named own =>
      obtain ⟨middle, one, last⟩ := Option.bind_eq_some_iff.mp done
      obtain ⟨⟨checks, -⟩, same⟩ := Option.ite_none_right_eq_some.mp one
      cases same
      cases last
      refine ⟨{ rightDb with audit := rightDb.audit ++ [event] }, ?_, agree.files, agree.shards,
        agree.nodes⟩
      simp only [Db.commit, Db.write]
      rw [if_pos ⟨checks, by rw [named]; exact decide_eq_true (present fileId own)⟩]
      rfl
  | revoke event fileId deletedAt linkVersion named own =>
      obtain ⟨middle, one, last⟩ := Option.bind_eq_some_iff.mp done
      obtain ⟨-, same⟩ := Option.ite_none_right_eq_some.mp one
      cases same
      obtain ⟨middle, one, last⟩ := Option.bind_eq_some_iff.mp last
      obtain ⟨⟨checks, -⟩, same⟩ := Option.ite_none_right_eq_some.mp one
      cases same
      cases last
      have still : fileId ∈ (File.update fileId (LifeCycle.revokeFile deletedAt linkVersion)
          rightDb.files).map (·.id) := by
        rw [LifeCycle.update_ids fileId (LifeCycle.revokeFile deletedAt linkVersion) rightDb.files
          fun _ => rfl]
        exact present fileId own
      refine ⟨{ rightDb with
        files := File.update fileId (LifeCycle.revokeFile deletedAt linkVersion) rightDb.files
        audit := rightDb.audit ++ [event] }, ?_, ?_⟩
      · simp only [Db.commit, Db.write]
        rw [if_pos (present fileId own)]
        change (if _ then _ else _ : Option Db).bind _ = _
        rw [if_pos ⟨checks, by rw [named]; exact decide_eq_true still⟩]
        rfl
      · obtain ⟨leftFiles, leftShards⟩ := @own_update user leftDb fileId
          (LifeCycle.revokeFile deletedAt linkVersion) (leftDb.audit ++ [event])
          fun _ => ⟨rfl, rfl⟩
        obtain ⟨rightFiles, rightShards⟩ := @own_update user rightDb fileId
          (LifeCycle.revokeFile deletedAt linkVersion) (rightDb.audit ++ [event])
          fun _ => ⟨rfl, rfl⟩
        refine ⟨?_, ?_, agree.nodes⟩
        · exact leftFiles ▸ rightFiles ▸ agree.files.map _
        · exact leftShards ▸ rightShards ▸ agree.shards
  | discard ids own =>
      cases done
      refine ⟨{ rightDb with shards := rightDb.shards.filter (·.id ∉ ids) }, rfl, agree.files, ?_,
        agree.nodes⟩
      have inside : ∀ db : Db, ownShards user { db with shards := db.shards.filter (·.id ∉ ids) } =
          (ownShards user db).filter (·.id ∉ ids) := by
        intro db
        unfold ownShards
        rw [List.filter_filter, List.filter_filter]
        apply List.filter_congr
        intro shard _
        exact Bool.and_comm _ _
      rw [inside, inside]
      exact agree.shards.filter _

/-- Whatever a request of the user is told in one world it can be told in the other. -/
theorem act_alike {thread : Tid} {asked : Op} {answer : Res asked}
    (alike : Alike user mine left right) (knows : Knows user mine known left)
    (may : May user known asked) (done : exec thread left asked answer = some after) :
    ∃ last, exec thread right asked answer = some last ∧ Alike user mine after last := by
  cases may with
  | now =>
      obtain ⟨same, taken⟩ := Option.ite_none_right_eq_some.mp done
      cases taken
      exact ⟨right, if_pos (same.trans alike.clock), alike⟩
  | files wanted own =>
      obtain ⟨order, taken⟩ := Option.ite_none_right_eq_some.mp done
      cases taken
      exact ⟨right, if_pos (order.trans (agree_selected alike.db own)), alike⟩
  | placed wanted own =>
      obtain ⟨order, taken⟩ := Option.ite_none_right_eq_some.mp done
      cases taken
      have found := agree_placed alike.db fun shard node chosen =>
        knows.files _ (own shard node chosen)
      exact ⟨right, if_pos (order.trans found), alike⟩
  | commit writes modest =>
      obtain ⟨db, committed, rfl⟩ := Option.map_eq_some_iff.mp done
      obtain ⟨other, there, agree⟩ := agree_commit alike.db knows.files modest committed
      refine ⟨_, Option.map_eq_some_iff.mpr ⟨other, there, rfl⟩, ?_⟩
      exact ⟨alike.clock, agree, alike.objects, alike.flights⟩
  | send requests own =>
      obtain ⟨handles, taken⟩ := Option.ite_none_right_eq_some.mp done
      cases taken
      rw [alike.flights.length] at handles
      refine ⟨_, if_pos handles, ?_⟩
      exact ⟨alike.clock, alike.db, alike.objects, paired_launch alike.flights thread requests⟩
  | await handles own =>
      obtain ⟨flights, waited, rfl⟩ := Option.map_eq_some_iff.mp done
      have named : ∀ handle ∈ handles, ∀ flight, left.flights[handle]? = some flight →
          ∀ id, flight.request.shard = some id → mine id := by
        intro handle member flight found
        obtain ⟨other, there, names⟩ := knows.handles handle (own handle member)
        obtain rfl := Option.some.inj (found.symm.trans there)
        exact names
      obtain ⟨last, told, pairs⟩ := paired_await alike.flights named waited
      refine ⟨_, Option.map_eq_some_iff.mpr ⟨last, told, rfl⟩, ?_⟩
      exact ⟨alike.clock, alike.db, alike.objects, pairs⟩

theorem alike_pending (alike : Alike user mine left right) {handle : Nat} {one : Flight Tid}
    (pending : left.pending handle = some one) :
    ∃ other, right.pending handle = some other ∧ Same mine one other := by
  obtain ⟨found, waiting⟩ := pending_found pending
  obtain ⟨other, there, same⟩ := paired_get alike.flights found
  refine ⟨other, ?_, same⟩
  rw [Shared.pending, there]
  exact if_pos (same.pending.mp waiting)

theorem alike_settle (alike : Alike user mine left right) (handle : Nat) {one other : Flight Tid}
    (same : Same mine one other) (state twin : FlightState)
    (settled : state = .pending ↔ twin = .pending)
    (equal : (∀ id, one.request.shard = some id → mine id) → state = twin) :
    Alike user mine (left.settle handle one state) (right.settle handle other twin) :=
  ⟨alike.clock, alike.db, alike.objects, paired_set alike.flights ⟨same.sent, settled, equal⟩⟩

theorem alike_store (alike : Alike user mine left right) (node id : Uuid)
    (entry twin : Option StoredShard) (equal : mine id → entry = twin) :
    Alike user mine (left.store node id entry) (right.store node id twin) := by
  refine ⟨alike.clock, alike.db, fun place other own => ?_, alike.flights⟩
  simp only [Shared.store]
  split
  · rename_i here
    exact equal (here.2 ▸ own)
  · exact alike.objects place other own

theorem world_alike {event : Event} (alike : Alike user mine left right)
    (done : environment platform left event = some after) :
    ∃ last, environment platform right event = some last ∧ Alike user mine after last := by
  cases event with
  | tick seconds =>
      cases done
      refine ⟨_, rfl, ?_⟩
      exact ⟨congrArg (· + seconds) alike.clock, alike.db, alike.objects, alike.flights⟩
  -- A node's answer depends on its entry for the id, which both worlds share if it is ours.
  | execute handle =>
      obtain ⟨one, pending, rfl⟩ := Option.map_eq_some_iff.mp done
      obtain ⟨other, there, same⟩ := alike_pending alike pending
      refine ⟨_, Option.map_eq_some_iff.mpr ⟨other, there, rfl⟩, ?_⟩
      have facts := same.sent
      simp only [sent, Prod.mk.injEq] at facts
      obtain ⟨-, node, request⟩ := facts
      unfold Shared.execute
      rw [← request, ← node]
      cases named : one.request.shard with
      | none =>
          have plain : one.request = .healthz := by
            cases asked : one.request <;> simp [asked, NodeRequest.shard] at named ⊢
          rw [plain]
          exact alike_settle alike handle same _ _ (by simp) fun _ => rfl
      | some id =>
          have entry : mine id → left.objects one.node id = right.objects one.node id :=
            alike.objects one.node id
          apply alike_settle _ handle same _ _ (by simp)
          · intro own
            rw [entry (own id named)]
          · apply alike_store alike
            intro own
            rw [entry own]
  | lose handle =>
      obtain ⟨one, pending, rfl⟩ := Option.map_eq_some_iff.mp done
      obtain ⟨other, there, same⟩ := alike_pending alike pending
      refine ⟨_, Option.map_eq_some_iff.mpr ⟨other, there, rfl⟩, ?_⟩
      exact alike_settle alike handle same _ _ Iff.rfl fun _ => rfl
  | misreply handle response =>
      obtain ⟨one, pending, rfl⟩ := Option.map_eq_some_iff.mp done
      obtain ⟨other, there, same⟩ := alike_pending alike pending
      refine ⟨_, Option.map_eq_some_iff.mpr ⟨other, there, rfl⟩, ?_⟩
      exact alike_settle alike handle same _ _ Iff.rfl fun _ => rfl
  | damage node id entry =>
      cases done
      exact ⟨_, rfl, alike_store alike node id entry entry fun _ => rfl⟩
  | operator node status =>
      cases done
      refine ⟨_, rfl, ?_⟩
      exact ⟨alike.clock, ⟨alike.db.files, alike.db.shards, alike.db.nodes.map _⟩, alike.objects,
        alike.flights⟩
  | register node =>
      obtain ⟨fresh, same⟩ := Option.ite_none_right_eq_some.mp done
      cases same
      rw [(alike.db.nodes.map _).mem_iff] at fresh
      refine ⟨_, if_pos fresh, ?_⟩
      exact ⟨alike.clock, ⟨alike.db.files, alike.db.shards, alike.db.nodes.append_right _⟩,
        alike.objects, alike.flights⟩

end Steps

def OfUser (user : Uuid) : Job → Prop
  | .listFiles userId _ _ | .getFile userId _ | .deleteFile userId _ _ => userId = user
  | .createLink request => request.userId = user
  | _ => False

def ByUser (user : Uuid) : ServiceLabel → Prop
  | .start _ job => OfUser user job
  | _ => True

abbrev UserStep (platform : Platform) (user : Uuid) :
    ServiceConfig → ServiceLabel → ServiceConfig → Prop :=
  Guarded (fun _ label => ByUser user label) (Step (service platform))

theorem program_scoped {user : Uuid} {known : Knowledge} (platform : Platform) {job : Job}
    (own : OfUser user job) : Scoped user known (program platform job) := by
  have done : ∀ {prog : Async Response}, Scoped user known prog →
      Scoped user known (prog.bind fun out => .ret (Outcome.response out)) :=
    fun confined => Prog.informed_bind confined fun _ _ _ => trivial
  cases job with
  | listFiles userId limit offset =>
      cases own
      exact done (listFiles_scoped limit offset)
  | getFile userId fileId =>
      cases own
      exact done (getFile_scoped fileId)
  | createLink request => exact done (createLink_scoped platform request own)
  | deleteFile userId fileId ipAddress =>
      cases own
      exact done (deleteFile_scoped fileId ipAddress)
  | _ => exact own.elim

/-- The tables have their keys, and every running request keeps to the user's rows. -/
structure Proper (user : Uuid) (mine : Uuid → Prop) (config : ServiceConfig) : Prop where
  keyed : Keyed user mine config.shared.db
  confined : ∀ thread job rest, config.threads thread = .running job rest →
    ∃ known, Scoped user known rest ∧ Knows user mine known config.shared

section Runs
variable {platform : Platform} {user : Uuid} {mine : Uuid → Prop} {before after : ServiceConfig}
  {label : ServiceLabel} {labels : List ServiceLabel}

theorem nothing_known {shared : Shared} :
    Knows user mine ⟨fun _ => False, fun _ => False, fun _ => False⟩ shared :=
  ⟨fun _ told => told.elim, fun _ told => told.elim, fun _ told => told.elim⟩

/-- A step of the user or of the world: what it spares, and what it leaves proper. -/
theorem proper_step (proper : Proper user mine before)
    (taken : UserStep platform user before label after) :
    Proper user mine after ∧ Spares user before.shared after.shared := by
  obtain ⟨step, own⟩ := taken
  have rest : ∀ {thread status}, (∀ job rest, status = .running job rest →
        ∃ known, Scoped user known rest ∧ Knows user mine known before.shared) →
      Proper user mine (before.set thread status) := by
    intro thread status started
    refine ⟨proper.keyed, fun other job rest running => ?_⟩
    rw [threads_set] at running
    split at running
    · exact started job rest running
    · exact proper.confined other job rest running
  cases step with
  | @start thread job idle may =>
      refine ⟨rest fun other rest same => ?_, spares_refl _⟩
      cases same
      exact ⟨_, program_scoped platform own, nothing_known⟩
  | @act thread job asked next answer shared at_op done =>
      obtain ⟨known, ⟨may, further⟩, knows⟩ := proper.confined thread job _ at_op
      have spares := act_spares proper.keyed knows may done
      refine ⟨⟨spares_keyed spares proper.keyed, fun other job rest running => ?_⟩, spares⟩
      simp only [threads_set] at running
      split at running
      · cases running
        exact ⟨_, further answer, act_knows proper.keyed knows may done⟩
      · obtain ⟨more, confined, knows⟩ := proper.confined other job rest running
        exact ⟨more, confined, spares_knows spares knows⟩
  | fail at_op => exact ⟨rest (by simp), spares_refl _⟩
  | finish at_ret => exact ⟨rest (by simp), spares_refl _⟩
  | env done =>
      have spares := @world_spares platform user _ _ _ done
      refine ⟨⟨spares_keyed spares proper.keyed, fun other job rest running => ?_⟩, spares⟩
      obtain ⟨more, confined, knows⟩ := proper.confined other job rest running
      exact ⟨more, confined, spares_knows spares knows⟩

structure Twin (user : Uuid) (mine : Uuid → Prop) (left right : ServiceConfig) : Prop where
  threads : right.threads = left.threads
  alike : Alike user mine left.shared right.shared
  left : Proper user mine left
  right : Proper user mine right

theorem twin_set {left right : ServiceConfig} (twin : Twin user mine left right) (thread : Tid)
    (status : Status Job Op Res Outcome) :
    (right.set thread status).threads = (left.set thread status).threads := by
  simp only [Config.set, twin.threads]

/-- Each step of the one is a step of the other. -/
theorem twin_step {left right : ServiceConfig} (twin : Twin user mine left right)
    (taken : UserStep platform user left label after) :
    ∃ next, UserStep platform user right label next ∧ Twin user mine after next := by
  have proper := proper_step twin.left taken
  have follow : ∀ {next : ServiceConfig}, Step (service platform) right label next →
      next.threads = after.threads → Alike user mine after.shared next.shared →
      ∃ next, UserStep platform user right label next ∧ Twin user mine after next := by
    intro next moved threads alike
    exact ⟨next, ⟨moved, taken.2⟩, threads, alike, proper.1,
      (proper_step twin.right ⟨moved, taken.2⟩).1⟩
  obtain ⟨step, own⟩ := taken
  cases step with
  | @start thread job idle may =>
      rw [← twin.threads] at idle
      exact follow (.start idle may) (twin_set twin _ _) twin.alike
  | @act thread job asked next answer shared at_op done =>
      obtain ⟨known, ⟨may, -⟩, knows⟩ := twin.left.confined thread job _ at_op
      obtain ⟨last, moved, alike⟩ := act_alike twin.alike knows may done
      rw [← twin.threads] at at_op
      exact follow (.act at_op moved) (twin_set twin _ _) alike
  | fail at_op =>
      rw [← twin.threads] at at_op
      exact follow (.fail at_op) (twin_set twin _ _) twin.alike
  | finish at_ret =>
      rw [← twin.threads] at at_ret
      exact follow (.finish at_ret) (twin_set twin _ _) twin.alike
  | env done =>
      obtain ⟨last, moved, alike⟩ := world_alike twin.alike done
      exact follow (.env moved) twin.threads alike

theorem twin_run {left right : ServiceConfig} (twin : Twin user mine left right)
    (run : Run (UserStep platform user) left labels after) :
    ∃ last, Run (UserStep platform user) right labels last ∧ Twin user mine after last := by
  have respects : ∀ left right label after, Twin user mine left right →
      UserStep platform user left label after →
      ∃ next, UserStep platform user right label next ∧ Twin user mine after next :=
    fun _ _ _ _ twin taken => twin_step twin taken
  exact run_alike respects run twin

theorem spares_trans {first middle last : Shared} (one : Spares user first middle)
    (two : Spares user middle last) : Spares user first last := by
  have rows : ∀ shard : Shard,
      owns user middle.db shard.fileId = owns user first.db shard.fileId :=
    fun shard => one.owns shard.fileId
  constructor
  case ids => exact two.ids.trans one.ids
  case owns => exact fun fileId => (two.owns fileId).trans (one.owns fileId)
  case shards => exact two.shards.trans one.shards
  case otherFiles => exact two.otherFiles.trans one.otherFiles
  case otherShards =>
    have second := two.otherShards
    simp only [rows] at second
    exact second.trans one.otherShards
  case lasting =>
    intro index flight found
    obtain ⟨later, there, same⟩ := one.lasting index flight found
    obtain ⟨last, here, equal⟩ := two.lasting index later there
    exact ⟨last, here, equal.trans same⟩

/-- Nothing is carried out but requests from this one on, and no object is damaged. -/
def Onward (base : Nat) : ServiceLabel → Prop
  | .env (.execute handle) => base ≤ handle
  | .env (.damage _ _ _) => False
  | _ => True

structure Done (user : Uuid) (mine : Uuid → Prop) (before : ServiceConfig)
    (labels : List ServiceLabel) (after : ServiceConfig) : Prop where
  proper : Proper user mine after
  spares : Spares user before.shared after.shared
  requests : ∀ (index : Nat) (flight : Flight Tid), before.shared.flights.length ≤ index →
    after.shared.flights[index]? = some flight →
      ∀ id, flight.request.shard = some id → mine id
  objects : (∀ label ∈ labels, Onward before.shared.flights.length label) →
    ∀ node id, ¬ mine id → after.shared.objects node id = before.shared.objects node id

theorem step_requests {base : Nat} (proper : Proper user mine before)
    (taken : UserStep platform user before label after)
    (requests : ∀ (index : Nat) (flight : Flight Tid), base ≤ index →
      before.shared.flights[index]? = some flight →
        ∀ id, flight.request.shard = some id → mine id) :
    ∀ (index : Nat) (flight : Flight Tid), base ≤ index →
      after.shared.flights[index]? = some flight →
        ∀ id, flight.request.shard = some id → mine id := by
  intro index flight late found id named
  obtain ⟨step, -⟩ := taken
  cases step with
  | start _ _ => exact requests index flight late found id named
  | fail _ => exact requests index flight late found id named
  | finish _ => exact requests index flight late found id named
  | env done =>
      obtain ⟨old, there, follows⟩ := environment_flight _ done found
      have request : flight.request = old.request := congrArg (·.2.2) follows.sent
      exact requests index old late there id (request ▸ named)
  | @act thread job asked next answer shared at_op done =>
      obtain ⟨known, ⟨may, -⟩, knows⟩ := proper.confined thread job _ at_op
      rcases exec_flight done found with ⟨old, there, told⟩ | ⟨-, one, launched, rfl⟩
      · have request : flight.request = old.request := congrArg (·.2.2) told.sent
        exact requests index old late there id (request ▸ named)
      · cases may with
        | send requests own =>
            obtain ⟨other, delete, told⟩ := own one launched
            rw [delete] at named
            cases named
            exact (knows.shards id told).1
        | _ => cases launched

theorem step_objects {base : Nat} (taken : UserStep platform user before label after)
    (requests : ∀ (index : Nat) (flight : Flight Tid), base ≤ index →
      before.shared.flights[index]? = some flight →
        ∀ id, flight.request.shard = some id → mine id)
    (onward : Onward base label) (node id : Uuid) (foreign : ¬ mine id) :
    after.shared.objects node id = before.shared.objects node id := by
  obtain ⟨step, -⟩ := taken
  cases step with
  | start _ _ => rfl
  | fail _ => rfl
  | finish _ => rfl
  | act at_op done => exact congrFun (congrFun (exec_objects done) node) id
  | @env event shared done =>
      cases event with
      | execute handle =>
          obtain ⟨flight, pending, rfl⟩ := Option.map_eq_some_iff.mp done
          rw [execute_objects]
          apply if_neg
          rintro ⟨-, named⟩
          exact foreign (requests handle flight onward (pending_found pending).1 id named)
      | damage _ _ _ => exact onward.elim
      | tick _ => cases done; rfl
      | operator _ _ => cases done; rfl
      | lose handle =>
          obtain ⟨flight, -, rfl⟩ := Option.map_eq_some_iff.mp done
          rfl
      | misreply handle response =>
          obtain ⟨flight, -, rfl⟩ := Option.map_eq_some_iff.mp done
          rfl
      | register node =>
          obtain ⟨-, same⟩ := Option.ite_none_right_eq_some.mp done
          cases same
          rfl

theorem user_run (proper : Proper user mine before)
    (run : Run (UserStep platform user) before labels after) :
    Done user mine before labels after := by
  induction run with
  | refl =>
      refine ⟨proper, spares_refl _, fun index flight late found => ?_, fun _ _ _ _ => rfl⟩
      rw [List.getElem?_eq_none late] at found
      cases found
  | @next middle after labels label ran taken ih =>
      obtain ⟨still, spares⟩ := proper_step ih.proper taken
      refine ⟨still, spares_trans ih.spares spares, step_requests ih.proper taken ih.requests, ?_⟩
      intro onward node id foreign
      have last := step_objects taken ih.requests (onward label (by simp)) node id foreign
      exact last.trans (ih.objects (fun one member => onward one (by simp [member])) node id foreign)

end Runs

def refusal (request : LinkRequest) : Response :=
  if request.rateAllowed = false then rateLimited
  else if ¬ ((request.settings.minTtlSeconds : Int) ≤ request.ttlSeconds ∧
      request.ttlSeconds ≤ request.settings.maxTtlSeconds) then
    ttlOutOfRange request.settings
  else fileNotFound

def refusalFor (own : Uuid → Bool) : Job → Option Response
  | .getFile _ fileId | .deleteFile _ fileId _ => if own fileId then none else some fileNotFound
  | .createLink request => if own request.fileId then none else some (refusal request)
  | _ => none

section Refusals
variable {platform : Platform} {user : Uuid} {mine : Uuid → Prop} {before after : ServiceConfig}
  {label : ServiceLabel} {labels : List ServiceLabel} {own : Uuid → Bool} {job : Job}
  {response : Response}

theorem createLink_refuses (request : LinkRequest) :
    createLink platform request = .ret (refusal request) ∨
      ∃ next : List File → Async Response,
        createLink platform request = .op (.selectFiles (owned request.userId request.fileId)) next ∧
        next [] = .ret (refusal request) := by
  unfold createLink refusal
  by_cases limited : request.rateAllowed = false
  · rw [if_pos limited, if_pos limited]
    exact Or.inl rfl
  rw [if_neg limited, if_neg limited]
  by_cases outside : ¬ ((request.settings.minTtlSeconds : Int) ≤ request.ttlSeconds ∧
      request.ttlSeconds ≤ request.settings.maxTtlSeconds)
  · rw [if_pos outside, if_pos outside]
    exact Or.inl rfl
  · rw [if_neg outside, if_neg outside]
    exact Or.inr ⟨_, rfl, rfl⟩

theorem refused_program (ofUser : OfUser user job) (refused : refusalFor own job = some response) :
    program platform job = .ret (.response response) ∨
      ∃ (next : List File → Async Outcome) (fileId : Uuid),
        program platform job = .op (.selectFiles (owned user fileId)) next ∧
        own fileId = false ∧ next [] = .ret (.response response) := by
  have named : ∀ {fileId : Uuid} {answer : Response},
      (if own fileId then none else some answer) = some response →
        own fileId = false ∧ answer = response := by
    intro fileId answer same
    by_cases theirs : own fileId = true
    · simp [theirs] at same
    · simpa [theirs] using same
  cases job with
  | getFile userId fileId =>
      cases ofUser
      obtain ⟨foreign, rfl⟩ := named refused
      exact Or.inr ⟨_, fileId, rfl, foreign, rfl⟩
  | deleteFile userId fileId ipAddress =>
      cases ofUser
      obtain ⟨foreign, rfl⟩ := named refused
      exact Or.inr ⟨_, fileId, rfl, foreign, rfl⟩
  | createLink request =>
      obtain ⟨foreign, rfl⟩ := named refused
      have same : request.userId = user := ofUser
      subst same
      have whole : program platform (.createLink request) =
          (createLink platform request).bind fun out => .ret (Outcome.response out) := rfl
      rcases @createLink_refuses platform request with ended | ⟨next, begins, empty⟩
      · rw [whole, ended]
        exact Or.inl rfl
      · rw [whole, begins]
        refine Or.inr ⟨_, request.fileId, rfl, foreign, ?_⟩
        rw [empty]
        rfl
  | _ => cases refused

def Refusing (platform : Platform) (user : Uuid) (own : Uuid → Bool) (config : ServiceConfig) :
    Prop :=
  ∀ thread job rest response, config.threads thread = .running job rest →
    refusalFor own job = some response →
      OfUser user job ∧ (rest = program platform job ∨ rest = .ret (.response response))

theorem refusing_step (same : ∀ fileId, owns user before.shared.db fileId = own fileId)
    (refusing : Refusing platform user own before)
    (taken : UserStep platform user before label after) : Refusing platform user own after := by
  intro thread job rest response running refused
  rcases step_running taken.1 running with old | ⟨rfl, begun, -⟩ |
    ⟨asked, next, answer, rfl, rfl, at_op, done⟩
  · exact refusing thread job rest response old refused
  · exact ⟨taken.2, Or.inl begun⟩
  · obtain ⟨ofUser, started | refused⟩ := refusing thread job _ response at_op refused
    · refine ⟨ofUser, Or.inr ?_⟩
      rcases @refused_program platform user own job response ofUser refused with
        ended | ⟨further, fileId, begins, foreign, empty⟩
      · rw [ended] at started
        cases started
      · rw [begins] at started
        cases started
        obtain ⟨order, -⟩ := Option.ite_none_right_eq_some.mp done
        have none : before.shared.db.files.filter (owned user fileId before.shared.db) = [] := by
          rw [List.filter_eq_nil_iff]
          intro file present chosen
          simp only [owned, Bool.and_eq_true, decide_eq_true_eq] at chosen
          have theirs : owns user before.shared.db fileId = true :=
            List.any_eq_true.mpr ⟨file, present, decide_eq_true chosen.1⟩
          rw [same, foreign] at theirs
          cases theirs
        rw [none, List.perm_nil] at order
        rw [order]
        exact empty
    · cases refused

theorem refusing_run (proper : Proper user mine before)
    (idle : ∀ thread job rest, before.threads thread ≠ .running job rest)
    (run : Run (UserStep platform user) before labels after) :
    Refusing platform user (owns user before.shared.db) after := by
  induction run with
  | refl => exact fun thread job rest _ running => absurd running (idle thread job rest)
  | next ran taken ih =>
      have done := user_run proper ran
      exact refusing_step done.spares.owns ih taken

/-- What such a request is answered depends on the request alone. -/
theorem run_refused (proper : Proper user mine before)
    (idle : ∀ thread job rest, before.threads thread ≠ .running job rest)
    (run : Run (UserStep platform user) before labels after) {thread : Tid} {out : Outcome}
    (refused : refusalFor (owns user before.shared.db) job = some response)
    (ended : .finish thread job out ∈ labels) : out = .response response := by
  obtain ⟨first, second, left, right, -, start, taken, -⟩ := run_member run ended
  have refusing := refusing_run proper idle start
  obtain ⟨step, -⟩ := taken
  cases step with
  | finish at_ret =>
      obtain ⟨ofUser, started | done⟩ := refusing thread job _ response at_ret refused
      · rcases @refused_program platform user _ job response ofUser refused with
          finished | ⟨_, _, begins, -⟩
        · rw [finished] at started
          cases started
          rfl
        · rw [begins] at started
          cases started
      · cases done
        rfl

end Refusals

/-- Everybody else's rows and objects, after requests of this user. -/
structure Untouched (user : Uuid) (before : Shared) (labels : List ServiceLabel) (after : Shared) :
    Prop where
  files : after.db.files.filter (·.ownerUserId ≠ user) =
    before.db.files.filter (·.ownerUserId ≠ user)
  shards : after.db.shards.filter (!owns user before.db ·.fileId) =
    before.db.shards.filter (!owns user before.db ·.fileId)
  requests : ∀ (index : Nat) (flight : Flight Tid), before.flights.length ≤ index →
    after.flights[index]? = some flight → ∀ id, flight.request.shard = some id →
      Mine user before.db id
  objects : (∀ label ∈ labels, Onward before.flights.length label) →
    ∀ node, ∀ shard ∈ before.db.shards, owns user before.db shard.fileId = false →
      after.objects node shard.id = before.objects node shard.id

structure Distinct (db : Db) : Prop where
  files : (db.files.map (·.id)).Nodup
  shards : (db.shards.map (·.id)).Nodup

theorem requests_isolated (platform : Platform) (user : Uuid) (left right : ServiceConfig)
    (leftKeys : Distinct left.shared.db) (rightKeys : Distinct right.shared.db)
    (idle : ∀ thread job rest, left.threads thread ≠ .running job rest)
    (threads : right.threads = left.threads)
    (alike : Alike user (Mine user left.shared.db) left.shared right.shared)
    (labels : List ServiceLabel) :
    ((∃ after, Run (UserStep platform user) left labels after) ↔
      ∃ after, Run (UserStep platform user) right labels after) ∧
    ∀ after, Run (UserStep platform user) left labels after →
      Untouched user left.shared labels after.shared ∧
      ∀ thread job out response, .finish thread job out ∈ labels →
        refusalFor (owns user left.shared.db) job = some response → out = .response response := by
  have properLeft : Proper user (Mine user left.shared.db) left := by
    refine ⟨⟨leftKeys.files, leftKeys.shards, ?_⟩, fun thread job rest running =>
      absurd running (idle thread job rest)⟩
    exact fun shard member owned => ⟨shard, member, owned, rfl⟩
  have properRight : Proper user (Mine user left.shared.db) right := by
    refine ⟨⟨rightKeys.files, rightKeys.shards, ?_⟩, fun thread job rest running =>
      absurd (threads ▸ running) (idle thread job rest)⟩
    intro shard member owned
    have own : shard ∈ ownShards user left.shared.db :=
      alike.db.shards.mem_iff.mpr (List.mem_filter.mpr ⟨member, owned⟩)
    obtain ⟨present, theirs⟩ := List.mem_filter.mp own
    exact ⟨shard, present, theirs, rfl⟩
  have twin : Twin user (Mine user left.shared.db) left right :=
    ⟨threads, alike, properLeft, properRight⟩
  have back : Twin user (Mine user left.shared.db) right left :=
    ⟨threads.symm, alike_symm alike, properRight, properLeft⟩
  refine ⟨⟨?_, ?_⟩, fun after run => ⟨?_, ?_⟩⟩
  · rintro ⟨after, run⟩
    obtain ⟨last, ran, -⟩ := twin_run twin run
    exact ⟨last, ran⟩
  · rintro ⟨after, run⟩
    obtain ⟨last, ran, -⟩ := twin_run back run
    exact ⟨last, ran⟩
  · have done := user_run properLeft run
    refine ⟨done.spares.otherFiles, done.spares.otherShards, done.requests, ?_⟩
    intro onward node shard member foreign
    apply done.objects onward
    rintro ⟨other, present, owned, same⟩
    obtain rfl := List.inj_on_of_nodup_map leftKeys.shards present member same
    rw [owned] at foreign
    cases foreign
  · intro thread job out response ended refused
    exact run_refused properLeft idle run refused ended

def smallService (files : List File) (shards : List Shard) : ServiceConfig where
  shared := ⟨100, ⟨files, shards, [healthyNode 1], []⟩, [], [], fun _ _ => none, []⟩
  threads := fun _ => .fresh

def ownFile : File := ⟨1, 9, ['f'], ['t'], 1, smallDigest, 1, 1, 1, .available, 0, none⟩

def ownRow : Shard := ⟨2, 1, 0, .data, 1, smallDigest, 1⟩

def crowded : ServiceConfig :=
  smallService [{ ownFile with id := 5, ownerUserId := 8 }, ownFile]
    [{ ownRow with id := 6, fileId := 5 }, ownRow]

/-- The user asks for the other's file, and deletes one. -/
def smallRequests : List ServiceMove :=
  [.start (.api 0) (.getFile 9 5)] ++ prompts (.api 0) 1 ++ [.finish (.api 0)] ++
  [.start (.api 1) (.deleteFile 9 1 none)] ++ prompts (.api 1) 5 ++ delivers [0] ++
  prompts (.api 1) 2 ++ [.finish (.api 1)]

def byNine : ServiceLabel → Bool
  | .start _ (.getFile user _) | .start _ (.deleteFile user _ _) => decide (user = 9)
  | .start _ _ => false
  | _ => true

def asksForFive : ServiceLabel → Bool
  | .finish _ (.getFile user fileId) _ => decide (user = 9 ∧ fileId = 5)
  | _ => false

def deletesOne : ServiceLabel → Bool
  | .finish _ (.deleteFile user fileId _) (.response response) =>
      decide (user = 9 ∧ fileId = 1 ∧ response = ⟨204, .empty⟩)
  | _ => false

theorem requests_isolated_small : ∃ labels after,
    Run (UserStep plain 9) crowded labels after ∧
    (∃ thread, .finish thread (.getFile 9 5) (.response fileNotFound) ∈ labels) ∧
    labels.any deletesOne = true := by
  obtain ⟨labels, last, run, passed⟩ := drive_guarded (service plain) (fun _ label => byNine label)
    (smallService [ownFile] [ownRow]) smallRequests
    (fun labels _ => labels.any asksForFive && labels.any deletesOne) (by decide +kernel)
  rw [Bool.and_eq_true] at passed
  have requests : Run (UserStep plain 9) (smallService [ownFile] [ownRow]) labels last := by
    refine run_mono ?_ run
    rintro before label after ⟨taken, nine⟩
    refine ⟨taken, ?_⟩
    cases label with
    | start thread job =>
        cases job with
        | getFile user fileId =>
            have same : user = 9 := of_decide_eq_true nine
            exact same
        | deleteFile user fileId ipAddress =>
            have same : user = 9 := of_decide_eq_true nine
            exact same
        | _ => cases nine
    | _ => trivial
  obtain ⟨⟨there, -⟩, done⟩ := requests_isolated plain 9 (smallService [ownFile] [ownRow]) crowded
    ⟨by decide, by decide⟩ ⟨by decide, by decide⟩ (fun _ _ _ => by simp [smallService]) rfl
    ⟨rfl, ⟨by decide, by decide, List.Perm.refl _⟩, fun _ _ _ => rfl, rfl, fun _ _ _ found => by
      cases found⟩ labels
  obtain ⟨after, twin⟩ := there ⟨last, requests⟩
  obtain ⟨label, member, asked⟩ := List.any_eq_true.mp passed.1
  unfold asksForFive at asked
  split at asked
  · rename_i thread user fileId out
    obtain ⟨rfl, rfl⟩ := of_decide_eq_true asked
    obtain rfl := (done last requests).2 thread _ out fileNotFound member (by decide)
    exact ⟨labels, after, twin, ⟨thread, member⟩, passed.2⟩
  · cases asked

end SecureFileSystem.Noninterference
