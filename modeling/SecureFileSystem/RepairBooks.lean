import SecureFileSystem.Layering
import SecureFileSystem.Wire

/-!
One repair with nobody else at work. The new object ids it draws are known to
the database exactly where the client was told that the PUT has succeeded, so
an object whose PUT took effect without the client learning of it is lost.
-/

namespace SecureFileSystem.RepairBooks

open Base Database Fleet Session LifeCycle Program Transition RelyGuarantee Files Maintenance
  Service Interference Stability Conduct Guarantees Wire Layering

/-- Steps of the worker's job, and of a world whose nodes run their own code. -/
def alone : ServiceLabel → Bool
  | .act thread _ _ => decide (thread = .worker)
  | .env (.misreply _ _) | .env (.damage _ _ _) => false
  | .env _ => true
  | _ => false

def Stored (flight : Flight Tid) : Prop :=
  ∃ response, flight.state = .answered response ∧ response.status = 201

def Acknowledged (flight : Flight Tid) : Prop :=
  ∃ response, flight.reply = some (some response) ∧ response.status = 201

def Named (fileId node id : Uuid) (shared : Shared) : Prop :=
  ∃ row ∈ shared.db.shards, row.id = id ∧ row.nodeId = node ∧ row.fileId = fileId

/-- A PUT of the object, sent after the first `base` requests. -/
def Sent (base : Nat) (shared : Shared) (index : Nat) (flight : Flight Tid) (id : Uuid) : Prop :=
  base ≤ index ∧ shared.flights[index]? = some flight ∧ ∃ data, flight.request = .put id data

def Wrote (base : Nat) (shared : Shared) (flight : Flight Tid) (id : Uuid) : Prop :=
  (∃ index, Sent base shared index flight id) ∧ Stored flight

/-- The worker is the only thread that moves, and rows stay as it leaves them. -/
def solo : Layer where
  inv := fun _ => True
  move := fun thread _ _ => thread = .worker
  drift := Drifts
  allowed := fun _ label => alone label = true

theorem solo_sound (platform : Platform) : Sound platform solo where
  move_inv := fun _ _ _ _ _ _ _ => trivial
  drift_inv := fun _ _ _ _ _ _ => trivial
  drifts := fun _ event _ _ done _ => environment_drifts event done

/-- What the database knows of the PUTs sent so far, those at `skip` apart, while
`rows` are still to be repaired. -/
structure Books (base : Nat) (fileId : Uuid) (skip : Nat → Prop) (rows : List Shard)
    (shared : Shared) : Prop where
  entries : ∀ index flight id, Sent base shared index flight id → ¬ skip index →
    (Acknowledged flight ↔ Named fileId flight.node id shared) ∧
      id ∈ shared.issued.map (·.2) ∧ id ∉ rows.map (·.id)
  present : ∀ row ∈ rows, row ∈ shared.db.shards ∧ row.fileId = fileId
  distinct : (rows.map (·.id)).Nodup
  length : base ≤ shared.flights.length

section Rules
variable {platform : Platform} {post : Tid → Job → Outcome → Shared → Prop} {Out : Type}
  {result : Out → Shared → Prop} {holds : Shared → Prop} {state : Shared} {base : Nat}
  {fileId : Uuid} {skip : Nat → Prop} {rows : List Shard}

abbrev SafeAlone (platform : Platform) (post : Tid → Job → Outcome → Shared → Prop)
    (result : Out → Shared → Prop) (prog : Async Out) (state : Shared) : Prop :=
  Safe (service platform) (solo.contract post) .worker result prog state

theorem solo_stable
    (drifted : ∀ before after, WellFormed before → Undisturbed before after →
      Drifts before after → holds before → holds after) :
    Stable (solo.contract post) .worker holds :=
  layer_stable (fun before after wf _ undisturbed drift => drifted before after wf undisturbed drift)
    fun _ _ _ different _ _ _ move => absurd move different

/-- What the books say of a flight depends on what was sent and told only. -/
theorem sent_before {before after : Shared} {index : Nat} {flight old : Flight Tid} {id : Uuid}
    (found : before.flights[index]? = some old) (same : sent flight = sent old)
    (put : Sent base after index flight id) : Sent base before index old id := by
  obtain ⟨late, -, data, request⟩ := put
  simp only [sent, Prod.mk.injEq] at same
  exact ⟨late, found, data, same.2.2.symm.trans request⟩

theorem entry_same {before after : Shared} {flight old : Flight Tid} {id : Uuid}
    (shards : after.db.shards = before.db.shards) (same : sent flight = sent old)
    (reply : flight.reply = old.reply)
    (entry : Acknowledged old ↔ Named fileId old.node id before) :
    Acknowledged flight ↔ Named fileId flight.node id after := by
  simp only [sent, Prod.mk.injEq] at same
  rw [Acknowledged, reply, Named, shards, same.2.1]
  exact entry

theorem books_stable : Stable (solo.contract post) .worker (Books base fileId skip rows) := by
  refine solo_stable fun before after _ undisturbed drifts books => ?_
  refine ⟨fun index flight id put kept => ?_, fun row member => ?_, books.distinct, ?_⟩
  · obtain ⟨old, found, follows⟩ := drifts.flights index flight put.2.1
    obtain ⟨entry, drawn, other⟩ :=
      books.entries index old id (sent_before found follows.sent put) kept
    exact ⟨entry_same undisturbed.shards follows.sent follows.reply entry,
      undisturbed.issued ▸ drawn, other⟩
  · exact undisturbed.shards ▸ books.present row member
  · exact books.length.trans_eq (drifts_length drifts).symm

theorem alone_reads (request : Op) {next : Res request → Async Out} (reading : reads request)
    (stable : Stable (solo.contract post) .worker holds) (start : holds state)
    (rest : ∀ before answer, WellFormed before → holds before →
      exec .worker before request answer = some before →
        SafeAlone platform post result (next answer) before) :
    SafeAlone platform post result ((Prog.perform request).bind next) state := by
  refine layer_op stable start fun before answer after wf _ held done _ _ => ⟨rfl, ?_⟩
  obtain rfl := exec_reads reading done
  exact rest after answer wf held done

def putless (requests : List (Uuid × NodeRequest)) : Prop :=
  ∀ one ∈ requests, ∀ id data, one.2 ≠ .put id data

def Harmless (handles : List Nat) (skip : Nat → Prop) (shared : Shared) : Prop :=
  ∀ index ∈ handles, ¬ skip index → ∀ flight, shared.flights[index]? = some flight →
    ∀ id data, flight.request ≠ .put id data

theorem harmless_stable (handles : List Nat) :
    Stable (solo.contract post) .worker (Harmless handles skip) := by
  refine solo_stable fun before after _ _ drifts harmless => ?_
  intro index member kept flight found id data request
  obtain ⟨old, present, follows⟩ := drifts.flights index flight found
  have same := follows.sent
  simp only [sent, Prod.mk.injEq] at same
  exact harmless index member kept old present id data (same.2.2.symm.trans request)

theorem books_exec {before after : Shared} {request : Op} {answer : Res request}
    (done : exec .worker before request answer = some after) (undisturbed : Undisturbed before after)
    (silent : putless (sends request)) (harmless : Harmless (awaited request) skip before)
    (books : Books base fileId skip rows before) : Books base fileId skip rows after := by
  refine ⟨fun index flight id put kept => ?_, fun row member => ?_, books.distinct, ?_⟩
  · rcases exec_flight done put.2.1 with ⟨old, found, told⟩ | ⟨-, one, launched, rfl⟩
    · have before_put := sent_before found told.sent put
      obtain ⟨entry, drawn, other⟩ := books.entries index old id before_put kept
      have reply : flight.reply = old.reply := by
        refine told.reply fun member => ?_
        obtain ⟨-, -, data, request⟩ := before_put
        exact harmless index member kept old found id data request
      exact ⟨entry_same undisturbed.shards told.sent reply entry, undisturbed.issued ▸ drawn, other⟩
    · obtain ⟨data, request⟩ := put.2.2
      exact absurd request (silent one launched id data)
  · exact undisturbed.shards ▸ books.present row member
  · have grown := congrArg List.length (exec_wire done)
    simp only [wire, List.length_map, List.length_append] at grown
    exact books.length.trans (by omega)

theorem alone_gather (requests : List (Uuid × NodeRequest)) {next : List Reply → Async Out}
    (silent : putless requests) (start : Books base fileId skip rows state)
    (rest : ∀ replies later, WellFormed later → Books base fileId skip rows later →
      SafeAlone platform post result (next replies) later) :
    SafeAlone platform post result ((gather requests).bind next) state := by
  refine layer_op books_stable start fun before handles after wf _ books done _ _ => ⟨rfl, ?_⟩
  have sent_books := books_exec done (exec_quiet (by trivial) done) silent nofun books
  have harmless : Harmless handles skip after := by
    obtain ⟨same, taken⟩ := Option.ite_none_right_eq_some.mp done
    cases taken
    intro index member _ flight found id data request
    rw [same] at member
    have late := (List.mem_range'_1.mp member).1
    change (before.flights ++ launch .worker requests)[index]? = some flight at found
    rw [List.getElem?_append_right late] at found
    obtain ⟨one, inside, rfl⟩ := List.mem_map.mp (List.mem_of_getElem? found)
    exact silent one inside id data request
  refine layer_op (stable_and books_stable (harmless_stable handles)) ⟨sent_books, harmless⟩
    fun before replies after wf _ held done life _ => ⟨rfl, ?_⟩
  exact rest replies after (life_wellFormed life wf)
    (books_exec done (exec_quiet (by trivial) done) nofun held.2 held.1)

/-- One PUT in progress: its id is drawn, in no table, and in no PUT but those at `skip`. -/
structure Open (base : Nat) (fileId : Uuid) (skip : Nat → Prop) (rows : List Shard) (newId : Uuid)
    (shared : Shared) : Prop where
  books : Books base fileId skip rows shared
  drawn : newId ∈ shared.issued.map (·.2)
  unused : newId ∉ used shared
  mine : ∀ index flight, Sent base shared index flight newId → skip index

theorem open_stable (newId : Uuid) :
    Stable (solo.contract post) .worker (Open base fileId skip rows newId) := by
  have books : Stable (solo.contract post) .worker (Books base fileId skip rows) := books_stable
  refine solo_stable fun before after wf undisturbed drifts opened => ?_
  have later := books before after ⟨wf, trivial⟩
    ⟨undisturbed_wellFormed undisturbed wf, trivial⟩ (Or.inl ⟨undisturbed, drifts⟩) opened.books
  refine ⟨later, undisturbed.issued ▸ opened.drawn, ?_, fun index flight put => ?_⟩
  · simpa only [used, undisturbed.log] using opened.unused
  · obtain ⟨old, found, follows⟩ := drifts.flights index flight put.2.1
    exact opened.mine index old (sent_before found follows.sent put)

def Placing (index : Nat) (node newId : Uuid) (block : Bytes) (reply : Option Reply)
    (shared : Shared) : Prop :=
  ∃ flight, shared.flights[index]? = some flight ∧ flight.node = node ∧
    flight.request = .put newId block ∧ flight.reply = reply

theorem placing_stable (index : Nat) (node newId : Uuid) (block : Bytes) (reply : Option Reply) :
    Stable (solo.contract post) .worker (Placing index node newId block reply) := by
  refine solo_stable fun before after _ _ drifts placing => ?_
  obtain ⟨old, found, onNode, request, told⟩ := placing
  obtain ⟨flight, present, follows⟩ := drifts_kept drifts found
  have same := follows.sent
  simp only [sent, Prod.mk.injEq] at same
  exact ⟨flight, present, same.2.1.trans onNode, same.2.2.trans request, follows.reply.trans told⟩

theorem open_draw {before : Shared} {newId : Uuid} (wf : WellFormed before)
    (fresh : newId ∉ before.issued.map (·.2))
    (books : Books base fileId skip rows before) :
    Open base fileId skip rows newId
      { before with issued := (.worker, newId) :: before.issued } := by
  refine ⟨⟨fun index flight id put kept => ?_, books.present, books.distinct, books.length⟩,
    List.mem_cons_self, fun known => fresh (wf.used_issued newId known), ?_⟩
  · obtain ⟨entry, drawn, other⟩ := books.entries index flight id put kept
    exact ⟨entry, List.mem_cons_of_mem _ drawn, other⟩
  · intro index flight put
    by_contra kept
    exact fresh (books.entries index flight newId put kept).2.1

theorem open_send {before : Shared} {newId node : Uuid} {block : Bytes}
    (opened : Open base fileId (fun _ => False) rows newId before) :
    Open base fileId (· = before.flights.length) rows newId
        { before with flights := before.flights ++ launch .worker [(node, .put newId block)] } ∧
      Placing before.flights.length node newId block none
        { before with flights := before.flights ++ launch .worker [(node, .put newId block)] } := by
  have earlier : ∀ {index flight id}, Sent base { before with
      flights := before.flights ++ launch .worker [(node, .put newId block)] } index flight id →
      index ≠ before.flights.length → Sent base before index flight id := by
    intro index flight id put other
    obtain ⟨late, found, request⟩ := put
    have inside := (List.getElem?_eq_some_iff.mp found).1
    simp only [launch, List.map_cons, List.map_nil, List.length_append, List.length_singleton]
      at inside
    rw [List.getElem?_append_left (by omega)] at found
    exact ⟨late, found, request⟩
  refine ⟨⟨⟨fun index flight id put kept => ?_, opened.books.present, opened.books.distinct, ?_⟩,
    opened.drawn, opened.unused, ?_⟩, ?_⟩
  · exact opened.books.entries index flight id (earlier put kept) not_false
  · simpa [launch] using Nat.le_succ_of_le opened.books.length
  · intro index flight put
    by_contra other
    exact opened.mine index flight (earlier put other)
  · exact ⟨⟨.worker, node, .put newId block, .pending, none⟩, by simp [launch], rfl, rfl, rfl⟩

theorem open_await {before after : Shared} {newId node : Uuid} {block : Bytes} {index : Nat}
    {replies : List Reply}
    (done : exec .worker before (.await [index]) replies = some after)
    (opened : Open base fileId (· = index) rows newId before)
    (placing : Placing index node newId block none before) :
    Open base fileId (· = index) rows newId after ∧
      Placing index node newId block (some (replies.headD none)) after := by
  have undisturbed := exec_quiet (by trivial) done
  have harmless : Harmless [index] (· = index) before :=
    fun other member kept => absurd (List.mem_singleton.mp member) kept
  have books := books_exec done undisturbed nofun harmless opened.books
  refine ⟨⟨books, undisturbed.issued ▸ opened.drawn, ?_, fun other flight put => ?_⟩, ?_⟩
  · simpa only [used, undisturbed.log] using opened.unused
  · rcases exec_flight done put.2.1 with ⟨old, found, told⟩ | ⟨-, one, launched, -⟩
    · exact opened.mine other old (sent_before found told.sent put)
    · cases launched
  · obtain ⟨flights, replied, rfl⟩ := Option.map_eq_some_iff.mp done
    obtain ⟨reply, flight, rfl, found, -, rfl⟩ := awaitReplies_one replied
    obtain ⟨same, present, onNode, request, -⟩ := placing
    obtain rfl := Option.some.inj (present.symm.trans found)
    have inside := (List.getElem?_eq_some_iff.mp found).1
    exact ⟨{ same with reply := some reply }, by simp [inside], onNode, request, rfl⟩

/-- What is acknowledged of the PUT in progress. -/
theorem placing_acknowledged {shared : Shared} {newId node : Uuid} {block : Bytes} {index : Nat}
    {reply : Reply} (placing : Placing index node newId block (some reply) shared)
    {flight : Flight Tid} (found : shared.flights[index]? = some flight) {id : Uuid}
    (put : Sent base shared index flight id) :
    flight.node = node ∧ id = newId ∧
      (Acknowledged flight ↔ succeeded (putShard reply) = true) := by
  obtain ⟨same, present, onNode, request, told⟩ := placing
  obtain rfl := Option.some.inj (present.symm.trans found)
  obtain ⟨-, -, data, asked⟩ := put
  rw [request] at asked
  refine ⟨onNode, (NodeRequest.put.inj asked).1.symm, ?_⟩
  rw [succeeded_put, Acknowledged, told]
  simp

theorem named_repoint {before after : Shared} {old new target node id : Uuid}
    (shards : after.db.shards = before.db.shards.map (repointShard old new target))
    (notOld : id ≠ old) (notNew : id ≠ new) :
    Named fileId node id after ↔ Named fileId node id before := by
  unfold Named
  rw [shards]
  constructor
  · rintro ⟨row, member, named, onNode, owner⟩
    obtain ⟨source, inside, rfl⟩ := List.mem_map.mp member
    by_cases hit : source.id = old
    · simp only [repointShard, hit, if_true] at named
      exact absurd named.symm notNew
    · simp only [repointShard, hit, if_false] at named onNode owner
      exact ⟨source, inside, named, onNode, owner⟩
  · rintro ⟨row, inside, named, onNode, owner⟩
    have kept : repointShard old new target row = row := by
      simp [repointShard, named, notOld]
    exact ⟨row, List.mem_map.mpr ⟨row, inside, kept⟩, named, onNode, owner⟩

theorem close_failed {shared : Shared} (wf : WellFormed shared) {newId node : Uuid} {block : Bytes}
    {index : Nat} {reply : Reply} {shard : Shard}
    (opened : Open base fileId (· = index) (shard :: rows) newId shared)
    (placing : Placing index node newId block (some reply) shared)
    (failed : ¬ succeeded (putShard reply) = true) :
    Books base fileId (fun _ => False) rows shared := by
  have books := opened.books
  have unnamed : newId ∉ (shard :: rows).map (·.id) := by
    intro member
    obtain ⟨row, inside, same⟩ := List.mem_map.mp member
    exact opened.unused (same ▸ wf.shards_used row (books.present row inside).1)
  refine ⟨fun other flight id put _ => ?_,
    fun row member => books.present row (List.mem_cons_of_mem _ member),
    (List.nodup_cons.mp books.distinct).2, books.length⟩
  by_cases same : other = index
  · subst other
    obtain ⟨onNode, rfl, acknowledged⟩ := placing_acknowledged placing put.2.1 put
    refine ⟨⟨fun told => absurd (acknowledged.mp told) failed, ?_⟩, opened.drawn,
      fun member => unnamed (List.mem_cons_of_mem _ member)⟩
    rintro ⟨row, present, named, -⟩
    exact absurd (named ▸ wf.shards_used row present) opened.unused
  · obtain ⟨entry, drawn, apart⟩ := books.entries other flight id put same
    exact ⟨entry, drawn, fun member => apart (List.mem_cons_of_mem _ member)⟩

theorem close_repointed {before after : Shared} (wf : WellFormed before) {newId node : Uuid}
    {block : Bytes} {index : Nat} {reply : Reply} {shard : Shard}
    (opened : Open base fileId (· = index) (shard :: rows) newId before)
    (placing : Placing index node newId block (some reply) before)
    (succeeds : succeeded (putShard reply) = true)
    (shards : after.db.shards = before.db.shards.map (repointShard shard.id newId node))
    (flights : after.flights = before.flights) (issued : after.issued = before.issued) :
    Books base fileId (fun _ => False) rows after := by
  have books := opened.books
  obtain ⟨apart, distinct⟩ := List.nodup_cons.mp books.distinct
  obtain ⟨inside, owner⟩ := books.present shard List.mem_cons_self
  have unnamed : newId ∉ (shard :: rows).map (·.id) := by
    intro member
    obtain ⟨row, inside, same⟩ := List.mem_map.mp member
    exact opened.unused (same ▸ wf.shards_used row (books.present row inside).1)
  refine ⟨fun other flight id put _ => ?_, fun row member => ?_, distinct,
    flights ▸ books.length⟩
  · have earlier : Sent base before other flight id := ⟨put.1, flights ▸ put.2.1, put.2.2⟩
    rw [issued]
    by_cases same : other = index
    · subst other
      obtain ⟨onNode, rfl, acknowledged⟩ := placing_acknowledged placing earlier.2.1 earlier
      refine ⟨⟨fun _ => ?_, fun _ => acknowledged.mpr succeeds⟩, opened.drawn,
        fun member => unnamed (List.mem_cons_of_mem _ member)⟩
      refine ⟨{ shard with id := id, nodeId := node }, ?_, rfl, onNode.symm, owner⟩
      rw [shards]
      exact List.mem_map.mpr ⟨shard, inside, by simp [repointShard]⟩
    · obtain ⟨entry, drawn, other'⟩ := books.entries other flight id earlier same
      rw [named_repoint shards (fun hit => other' (List.mem_map.mpr ⟨shard, List.mem_cons_self, hit.symm⟩))
        (fun hit => same (opened.mine other flight (hit ▸ earlier)))]
      exact ⟨entry, drawn, fun member => other' (List.mem_cons_of_mem _ member)⟩
  · obtain ⟨present, same⟩ := books.present row (List.mem_cons_of_mem _ member)
    have kept : repointShard shard.id newId node row = row := by
      have other : row.id ≠ shard.id := fun hit => apart (List.mem_map.mpr ⟨row, member, hit⟩)
      simp [repointShard, other]
    exact ⟨shards ▸ List.mem_map.mpr ⟨row, present, kept⟩, same⟩

theorem books_sublist {smaller : List Shard} (sub : smaller.Sublist rows) {shared : Shared}
    (books : Books base fileId skip rows shared) : Books base fileId skip smaller shared := by
  refine ⟨fun index flight id put kept => ?_, fun row member => books.present row (sub.subset member),
    books.distinct.sublist (sub.map _), books.length⟩
  obtain ⟨entry, drawn, other⟩ := books.entries index flight id put kept
  exact ⟨entry, drawn, fun member => other ((sub.map _).subset member)⟩

/-- The loop keeps the books whatever becomes of its PUTs. -/
theorem repairShards_books (items : List ((Shard × StorageNode) × Bytes × StorageNode))
    (start : Books base fileId (fun _ => False) (items.map (·.1.1)) state) :
    SafeAlone platform post (fun _ later => Books base fileId (fun _ => False) [] later)
      (repairShards platform items) state := by
  induction items generalizing state with
  | nil => exact safe_ret books_stable start fun _ _ books => books
  | cons item rest ih =>
      obtain ⟨⟨shard, oldNode⟩, block, target⟩ := item
      unfold repairShards
      split
      · exact ih (books_sublist (List.sublist_cons_self _ _) start)
      refine layer_op books_stable start fun before newId drawn wf _ books done _ _ => ⟨rfl, ?_⟩
      obtain ⟨fresh, same⟩ := Option.ite_none_right_eq_some.mp done
      cases same
      -- From the draw to the commit this id is the one open entry of the books.
      have opened := open_draw wf fresh books
      refine layer_op (open_stable newId) opened fun before handles sent wf _ opened done _ _ =>
        ⟨rfl, ?_⟩
      obtain ⟨rfl, same⟩ := Option.ite_none_right_eq_some.mp done
      cases same
      refine layer_op (stable_and (open_stable newId) (placing_stable _ _ _ _ _)) (open_send opened)
        fun before replies told wf _ both done life _ => ⟨rfl, ?_⟩
      obtain ⟨answered, placed⟩ := open_await done both.1 both.2
      have wf_told := life_wellFormed life wf
      change SafeAlone platform post _
        (if succeeded (putShard (replies.headD none)) = true then _ else _) told
      split
      · rename_i succeeds
        refine layer_op (stable_and (open_stable newId) (placing_stable _ _ _ _ _))
          ⟨answered, placed⟩ fun before _ repointed wf _ both done life _ => ⟨rfl, ?_⟩
        have wf_repointed := life_wellFormed life wf
        obtain ⟨db, committed, rfl⟩ := Option.map_eq_some_iff.mp done
        obtain ⟨middle, one, last⟩ := Option.bind_eq_some_iff.mp committed
        cases last
        obtain ⟨-, same⟩ := Option.ite_none_right_eq_some.mp one
        cases same
        have closed : Books base fileId (fun _ => False) (rest.map (·.1.1)) { before with
            db := { before.db with
              shards := before.db.shards.map (repointShard shard.id newId target.id) }
            log := before.log ++ [(.worker, [.repoint shard.id newId target.id])] } :=
          close_repointed wf both.1 both.2 succeeds rfl rfl rfl
        change SafeAlone platform post _ ((gather [(oldNode.id, .delete shard.id)]).bind fun _ =>
          (repairShards platform rest).bind fun repaired => .ret (repaired + 1)) _
        refine alone_gather _ ?_ closed fun _ later _ books => ?_
        · rintro one member id data request
          rw [List.mem_singleton.mp member] at request
          cases request
        · exact safe_bind (ih books) fun _ _ _ books =>
            safe_ret books_stable books fun _ _ held => held
      · rename_i failed
        exact ih (close_failed wf_told answered placed failed)

theorem fetchRounds_books (k fuel : Nat) (collected : Erasure.Blocks)
    (remaining : List (Shard × StorageNode)) (start : Books base fileId skip rows state) :
    SafeAlone platform post (fun _ later => Books base fileId skip rows later)
      (fetchRounds platform k fuel collected remaining) state := by
  induction fuel generalizing state collected remaining with
  | zero => exact safe_ret books_stable start fun _ _ books => books
  | succ fuel ih =>
      unfold fetchRounds
      split
      · refine alone_gather _ ?_ start fun _ later _ books => ih _ _ books
        intro one member id data request
        obtain ⟨row, -, rfl⟩ := List.mem_map.mp member
        cases request
      · exact safe_ret books_stable start fun _ _ books => books

def Unsent (base : Nat) (shared : Shared) : Prop :=
  (∀ index flight id, ¬ Sent base shared index flight id) ∧ base ≤ shared.flights.length

theorem unsent_stable : Stable (solo.contract post) .worker (Unsent base) := by
  refine solo_stable fun before after _ _ drifts unsent => ⟨fun index flight id put => ?_, ?_⟩
  · obtain ⟨old, found, follows⟩ := drifts.flights index flight put.2.1
    exact unsent.1 index old id (sent_before found follows.sent put)
  · exact unsent.2.trans_eq (drifts_length drifts).symm

theorem unsent_books {shared : Shared} (wf : WellFormed shared) (unsent : Unsent base shared)
    {placed : List (Shard × StorageNode)}
    (order : placed.Perm (shared.db.placed.filter fun row => row.1.fileId = fileId)) :
    Books base fileId skip (placed.map Prod.fst) shared := by
  refine ⟨fun index flight id put => absurd put (unsent.1 index flight id), fun row member => ?_, ?_,
    unsent.2⟩
  · obtain ⟨joined, inside, rfl⟩ := List.mem_map.mp member
    obtain ⟨present, owner⟩ := List.mem_filter.mp (order.mem_iff.mp inside)
    exact ⟨(placed_shard present).1, by simpa using owner⟩
  · have rows := (order.map Prod.fst).map (·.id)
    refine rows.nodup_iff.mpr (wf.shards_nodup.sublist (List.Sublist.map _ ?_))
    exact (List.filter_sublist.map _).trans (placed_sublist wf.nodes_nodup)

/-- What the database knows of every PUT of a finished repair. -/
theorem repairFile_books (bad : List Uuid) (start : Unsent base state) :
    SafeAlone platform post (fun _ later => Books base fileId (fun _ => False) [] later)
      (repairFile platform fileId bad) state := by
  have done : ∀ {out : Except Erasure.ErasureError Nat} {rows later},
      Books base fileId (fun _ => False) rows later →
      SafeAlone platform post (fun _ last => Books base fileId (fun _ => False) [] last)
        (.ret out) later := fun books =>
    safe_ret books_stable (books_sublist (List.nil_sublist _) books) fun _ _ held => held
  have empty : ∀ {later}, Unsent base later → Books base fileId (fun _ => False) [] later :=
    fun unsent => ⟨fun index flight id put => absurd put (unsent.1 index flight id), by simp,
      List.nodup_nil, unsent.2⟩
  refine alone_reads (.selectFiles _) trivial unsent_stable start fun before found wf unsent _ => ?_
  dsimp only [Prog.bind]
  cases found.head? with
  | none => exact done (empty unsent)
  | some file =>
  dsimp only
  split
  · exact done (empty unsent)
  refine alone_reads (.selectPlaced _) trivial unsent_stable unsent
    fun before placed wf unsent order => ?_
  obtain ⟨order, -⟩ := Option.ite_none_right_eq_some.mp order
  have books : Books base fileId (fun _ => False) (placed.map Prod.fst) before :=
    unsent_books wf unsent order
  refine alone_reads (.selectPlaced _) trivial books_stable books fun before rows wf books _ => ?_
  refine safe_bind (fetchRounds_books _ _ _ _ books) fun blocks later inv books => ?_
  split
  · exact done books
  refine alone_reads (.selectNodes _) trivial books_stable books fun before healthy _ books _ => ?_
  refine alone_reads (.shuffle _) trivial books_stable books fun before targets _ books _ => ?_
  split
  · exact done books
  rename_i rebuilt _
  refine safe_bind (repairShards_books _ (books_sublist ?_ books)) fun count later _ books =>
    safe_ret books_stable books fun _ _ held => held
  have repaired := (Upkeep.zip_fst_sublist (placed.filter fun row => row.1.id ∈ bad)
    (rebuilt.zip targets)).trans List.filter_sublist
  simpa [List.map_map, Function.comp_def] using repaired.map Prod.fst

end Rules

/-- A repair of the file from its start to its return, with no other thread at work. -/
structure Repair (platform : Platform) (fileId : Uuid) (bad : List Uuid)
    (before config : ServiceConfig) : Prop where
  reached : ∃ clock earlier, Run (Step (service platform)) (deployed clock) earlier before
  ran : ∃ start labels,
    Step (service platform) before (.start .worker (.repairFile fileId bad)) start ∧
    Run (Guarded (fun _ label => alone label = true) (Step (service platform))) start labels config
  returned : ∃ out after,
    Step (service platform) config (.finish .worker (.repairFile fileId bad) out) after

theorem start_unsent {shared : Shared} : Unsent shared.flights.length shared := by
  refine ⟨fun index flight id put => ?_, le_rfl⟩
  have found := put.2.1
  rw [List.getElem?_eq_none put.1] at found
  cases found

theorem repair_books {platform : Platform} {fileId : Uuid} {bad : List Uuid}
    {before config : ServiceConfig} (repair : Repair platform fileId bad before config) :
    Books before.shared.flights.length fileId (fun _ => False) [] config.shared := by
  obtain ⟨⟨clock, earlier, reached⟩, ⟨start, labels, begins, run⟩, ⟨out, after, returned⟩⟩ := repair
  have started := Run.next reached begins
  have shared : start.shared = before.shared := by
    cases begins
    rfl
  rw [← shared]
  let post : Tid → Job → Outcome → Shared → Prop := fun thread _ _ later =>
    thread = .worker → Books start.shared.flights.length fileId (fun _ => False) [] later
  have all : AllSafe (service platform) (solo.contract post) start := by
    refine ⟨⟨(service_safe started).inv, trivial⟩, fun thread job rest running => ?_⟩
    cases thread with
    | worker =>
        have begun : Unsent start.shared.flights.length start.shared := start_unsent
        cases begins
        rw [threads_set, if_pos rfl] at running
        cases running
        exact safe_map (safe_mono (repairFile_books bad begun) fun _ _ _ books _ => books)
    | api request =>
        have other : Tid.api request ≠ .worker := nofun
        have idle : ¬ decide (Tid.api request = .worker) = true := by simp [other]
        exact layer_idle (fun _ _ _ => idle) (fun _ _ same => absurd same other) rest
  have safe := layer_run (solo_sound platform) (fun _ _ _ _ _ _ => nofun) started all run
  cases returned with
  | finish at_ret => exact safe.threads .worker _ _ at_ret config.shared .refl safe.inv rfl

/-- Every object a repair put is named by a row of the file exactly if the client
was told of every PUT that a node carried out. -/
theorem repair_recorded (platform : Platform) (fileId : Uuid) (bad : List Uuid)
    (before config : ServiceConfig) (repair : Repair platform fileId bad before config) :
    (∀ flight id, Wrote before.shared.flights.length config.shared flight id →
        Named fileId flight.node id config.shared) ↔
      ∀ flight id, Wrote before.shared.flights.length config.shared flight id →
        Acknowledged flight := by
  have books := repair_books repair
  refine forall_congr' fun flight => forall_congr' fun id => forall_congr' fun wrote => ?_
  obtain ⟨⟨index, put⟩, -⟩ := wrote
  exact (books.entries index flight id put not_false).1.symm

theorem smallUploaded_driven :
    (drive (service plain) (fun _ _ => true) (deployed 0) smallUploaded).isSome = true := by
  decide +kernel

def uploadedOnce : ServiceConfig :=
  ((drive (service plain) (fun _ _ => true) (deployed 0) smallUploaded).get
    smallUploaded_driven).2

def repairing : ServiceConfig :=
  uploadedOnce.set .worker (.running (.repairFile 1 [2]) (program plain (.repairFile 1 [2])))

/-- Up to the answer to the PUT of the new object, which its node has stored. -/
def repairedUpTo : List ServiceMove :=
  prompts .worker 4 ++ delivers [2] ++ prompts .worker 5 ++ delivers [3]

/-- A client that gives up on everything it waits for. -/
def deaf (shared : Shared) : (request : Op) → Option (Res request)
  | .await handles => some (handles.map fun _ => none)
  | request => prompt shared request

def returns (config : ServiceConfig) : Bool :=
  match config.threads .worker with
  | .running (.repairFile fileId bad) (.ret _) => decide (fileId = 1 ∧ bad = [2])
  | _ => false

theorem uploadedOnce_fresh : Program.Idle (service plain) .worker (uploadedOnce.threads .worker) := by
  have fresh : (match uploadedOnce.threads .worker with
      | .fresh => true
      | _ => false) = true := by decide +kernel
  split at fresh
  · rename_i same
    rw [same]
    trivial
  · cases fresh

theorem repair_driven (moves : List ServiceMove) (check : ServiceConfig → Bool)
    (passed : (drive (service plain) (fun _ label => alone label) repairing moves).any
      (fun driven => returns driven.2 && check driven.2) = true) :
    ∃ config, Repair plain 1 [2] uploadedOnce config ∧ check config = true := by
  obtain ⟨labels, config, run, passed⟩ := drive_guarded (service plain)
    (fun _ label => alone label) repairing moves (fun _ config => returns config && check config)
    passed
  rw [Bool.and_eq_true] at passed
  have reached := drive_run (service plain) (fun _ _ => true) (deployed 0) smallUploaded _
    uploadedOnce (Option.some_get smallUploaded_driven).symm
  refine ⟨config, ⟨⟨0, _, guarded_run reached⟩, ⟨repairing, labels, .start uploadedOnce_fresh rfl, run⟩, ?_⟩,
    passed.2⟩
  have ended := passed.1
  unfold returns at ended
  split at ended
  · rename_i fileId bad out at_ret
    obtain ⟨rfl, rfl⟩ := of_decide_eq_true ended
    exact ⟨out, _, .finish at_ret⟩
  · cases ended

def heard (config : ServiceConfig) : Bool :=
  config.shared.flights.all fun flight =>
    match flight.request with
    | .put _ _ => decide (flight.reply = some (some (answer 201)))
    | _ => true

theorem repair_recorded_heard : ∃ config, Repair plain 1 [2] uploadedOnce config ∧
    config.shared.db.shards.map (·.id) = [4, 3] ∧
    ∀ flight id, Wrote uploadedOnce.shared.flights.length config.shared flight id →
      Named 1 flight.node id config.shared := by
  obtain ⟨config, repair, passed⟩ := repair_driven (repairedUpTo ++ prompts .worker 4)
    (fun config => heard config && decide (config.shared.db.shards.map (·.id) = [4, 3])) (by decide +kernel)
  rw [Bool.and_eq_true] at passed
  refine ⟨config, repair, of_decide_eq_true passed.2, ?_⟩
  refine (repair_recorded plain 1 [2] uploadedOnce config repair).mpr ?_
  rintro flight id ⟨⟨index, -, found, data, request⟩, -⟩
  have told := List.all_eq_true.mp passed.1 flight (List.mem_of_getElem? found)
  rw [request] at told
  exact ⟨answer 201, of_decide_eq_true told, rfl⟩

def unnamed (config : ServiceConfig) : Bool :=
  config.shared.flights.zipIdx.any fun (flight, index) =>
    decide (uploadedOnce.shared.flights.length ≤ index ∧ flight.state = .answered (answer 201)) &&
    match flight.request with
    | .put id _ => config.shared.db.shards.all (·.id ≠ id)
    | _ => false

/-- The node has stored the new object, and the client gives up on its answer. -/
theorem repair_unrecorded : ∃ config, Repair plain 1 [2] uploadedOnce config ∧
    ∃ flight id, Wrote uploadedOnce.shared.flights.length config.shared flight id ∧
      ¬ Named 1 flight.node id config.shared := by
  obtain ⟨config, repair, passed⟩ := repair_driven (repairedUpTo ++ [.act .worker deaf])
    unnamed (by decide +kernel)
  obtain ⟨⟨flight, index⟩, member, facts⟩ := List.any_eq_true.mp passed
  rw [Bool.and_eq_true] at facts
  obtain ⟨⟨late, state⟩, lost⟩ := And.imp_left of_decide_eq_true facts
  refine ⟨config, repair, flight, ?_⟩
  split at lost
  · rename_i id data request
    refine ⟨id, ⟨⟨index, late, List.mem_zipIdx_iff_getElem?.mp member, data, request⟩,
      answer 201, state, rfl⟩, ?_⟩
    rintro ⟨row, present, named, -⟩
    exact absurd named (of_decide_eq_true (List.all_eq_true.mp lost row present))
  · cases lost

end SecureFileSystem.RepairBooks
