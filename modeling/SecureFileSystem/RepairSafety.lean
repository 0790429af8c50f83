import SecureFileSystem.Objects
import SecureFileSystem.RepairBooks
import SecureFileSystem.Records

/-!
A repair among everything that may go on around it: each row of the file keeps
its old object until a node has acknowledged the rebuilt one, and an old object
is only deleted once its row has moved.
-/

namespace SecureFileSystem.RepairSafety

open Base Database Fleet Session LifeCycle Program Transition RelyGuarantee Files Maintenance
  Service Interference Stability Conduct Guarantees Wire Objects Records Layering RepairBooks

/-- A repair of a file's bad shards, and the state from which on it is watched. -/
structure Order where
  fileId : Uuid
  bad : List Uuid
  start : Shared
  /-- the nodes run their own code, and their disks keep what the repair puts there -/
  faithful : Prop

def Order.origin (order : Order) : List Shard := order.start.db.shardsOf order.fileId

def Order.base (order : Order) : Nat := order.start.flights.length

/-- Drawn by the worker since. -/
def Order.Own (order : Order) (shared : Shared) (id : Uuid) : Prop :=
  (Tid.worker, id) ∈ shared.issued ∧ id ∉ order.start.issued.map (·.2)

/-- The node has answered a PUT of the repair with 201. -/
def Order.Acknowledged (order : Order) (shared : Shared) (node id : Uuid) (data : Bytes) : Prop :=
  ∃ index flight response, order.base ≤ index ∧ shared.flights[index]? = some flight ∧
    sent flight = (.worker, node, .put id data) ∧ flight.state = .answered response ∧
    response.status = 201

/-- A row against what the repair has found in its place. -/
inductive Order.Mended (platform : Platform) (order : Order) (shared : Shared) (old row : Shard) :
    Prop
  | kept (same : row = old)
  | moved (marked : old.id ∈ order.bad)
      (columns : row = { old with id := row.id, nodeId := row.nodeId })
      (own : order.Own shared row.id) (data : Bytes)
      (checksum : platform.sha256Hex data = old.checksumSha256)
      (acknowledged : order.Acknowledged shared row.nodeId row.id data)

/-- The rows found, each with what stands in its place now. -/
def Order.pairs (order : Order) (shared : Shared) : List (Shard × Shard) :=
  order.origin.zip (shared.db.shardsOf order.fileId)

def Order.repointed (order : Order) (shared : Shared) : Nat :=
  (order.pairs shared).countP fun pair => pair.2.id ≠ pair.1.id

/-- The old object of a row that has moved. -/
def Order.Replaced (order : Order) (shared : Shared) (node id : Uuid) : Prop :=
  ∃ pair ∈ order.pairs shared, pair.1.id = id ∧ pair.1.nodeId = node ∧ pair.2.id ≠ id

structure Order.Mends (platform : Platform) (order : Order) (shared : Shared) : Prop where
  standing : ∃ file ∈ shared.db.files, file.id = order.fileId ∧ file.status ≠ .deleted
  count : (shared.db.shardsOf order.fileId).length = order.origin.length
  rows : ∀ pair ∈ order.pairs shared, order.Mended platform shared pair.1 pair.2
  length : order.base ≤ shared.flights.length
  own : ∀ (index : Nat) (flight : Flight Tid) (id : Uuid) (data : Bytes), order.base ≤ index →
    shared.flights[index]? = some flight → flight.sender = .worker →
      flight.request = .put id data → order.Own shared id
  stored : order.faithful → ∀ (node id : Uuid) (data : Bytes),
    order.Acknowledged shared node id data →
      shared.objects node id = some ⟨platform.sha256Hex data, data⟩
  apart : ∀ flight ∈ shared.flights, ∀ id, flight.request = .delete id → ¬ order.Own shared id
  deletes : ∀ (index : Nat) (flight : Flight Tid) (id : Uuid), order.base ≤ index →
    shared.flights[index]? = some flight → flight.sender = .worker →
      flight.request = .delete id → order.Replaced shared flight.node id
  named : ∀ flight ∈ shared.flights, ∀ id, flight.request.shard = some id → Known shared id
  earlier : ∀ entry ∈ order.start.issued, entry ∈ shared.issued

/-- No deletion of the file runs beside the repair, nor does another job of the
worker; the repair begins with the rows of the first state. -/
def Order.allowed (order : Order) (shared : Shared) : ServiceLabel → Prop
  | .start thread job => thread = .worker → job = .repairFile order.fileId order.bad ∧
      shared.db.shardsOf order.fileId = order.origin
  | .act (.api _) (.commit writes) _ => .deleteFile order.fileId ∉ writes ∧
      ∀ deletedAt linkVersion, .setDeleted order.fileId deletedAt linkVersion ∉ writes
  | .act (.api _) (.send requests) _ =>
      ∀ one ∈ requests, ∀ id, one.2 = .delete id → ¬ order.Own shared id
  | .env event => order.faithful → Honest shared event ∧
      ∀ node id entry, event = .damage node id entry → ¬ order.Own shared id
  | _ => True

def Naming (shared : Shared) : ServiceLabel → Prop
  | .act _ (.send requests) _ =>
      ∀ one ∈ requests, ∀ id, one.2.shard = some id → Known shared id
  | _ => True

/-- What goes on without the worker. -/
structure Order.Elsewhere (order : Order) (before after : Shared) : Prop where
  rows : after.db.shardsOf order.fileId = before.db.shardsOf order.fileId
  length : before.flights.length ≤ after.flights.length
  kept : ∀ (index : Nat) (flight : Flight Tid), before.flights[index]? = some flight →
    ∃ later, after.flights[index]? = some later ∧ sent later = sent flight ∧
      (later.state = flight.state ∨ flight.state = .pending)
  added : ∀ (index : Nat) (flight : Flight Tid), after.flights[index]? = some flight →
    flight.sender = .worker → ∃ old, before.flights[index]? = some old ∧ sent flight = sent old
  drawn : ∀ id, (Tid.worker, id) ∈ after.issued ↔ (Tid.worker, id) ∈ before.issued
  issued : ∀ entry ∈ before.issued, entry ∈ after.issued

section Invariant
variable {platform : Platform} {order : Order} {before after : Shared}

theorem acknowledged_later (elsewhere : order.Elsewhere before after) {node id : Uuid} {data : Bytes}
    (acknowledged : order.Acknowledged before node id data) :
    order.Acknowledged after node id data := by
  obtain ⟨index, flight, response, late, found, put, answered, created⟩ := acknowledged
  obtain ⟨later, there, same, state⟩ := elsewhere.kept index flight found
  refine ⟨index, later, response, late, there, same.trans put, ?_, created⟩
  rcases state with still | pending
  · exact still.trans answered
  · rw [answered] at pending
    cases pending

theorem mended_later {old row : Shard} (own : ∀ id, order.Own before id → order.Own after id)
    (acknowledged : ∀ node id data, order.Acknowledged before node id data →
      order.Acknowledged after node id data)
    (mended : order.Mended platform before old row) : order.Mended platform after old row := by
  cases mended with
  | kept same => exact .kept same
  | moved marked columns mine data checksum told =>
      exact .moved marked columns (own _ mine) data checksum (acknowledged _ _ _ told)

theorem own_elsewhere (elsewhere : order.Elsewhere before after) (id : Uuid) :
    order.Own after id ↔ order.Own before id := by
  unfold Order.Own
  rw [elsewhere.drawn id]

theorem pairs_elsewhere (elsewhere : order.Elsewhere before after) :
    order.pairs after = order.pairs before := by
  unfold Order.pairs
  rw [elsewhere.rows]

theorem mends_elsewhere (elsewhere : order.Elsewhere before after) (mends : order.Mends platform before)
    (standing : ∃ file ∈ after.db.files, file.id = order.fileId ∧ file.status ≠ .deleted)
    (stored : order.faithful → ∀ (node id : Uuid) (data : Bytes),
      order.Acknowledged after node id data →
        after.objects node id = some ⟨platform.sha256Hex data, data⟩)
    (apart : ∀ flight ∈ after.flights, ∀ id, flight.request = .delete id → ¬ order.Own before id)
    (named : ∀ flight ∈ after.flights, ∀ id, flight.request.shard = some id → Known after id) :
    order.Mends platform after := by
  have pairs := pairs_elsewhere elsewhere
  refine ⟨standing, ?_, ?_, mends.length.trans elsewhere.length, ?_, stored, ?_, ?_, named,
    fun entry member => elsewhere.issued entry (mends.earlier entry member)⟩
  · rw [elsewhere.rows]
    exact mends.count
  · rw [pairs]
    intro pair member
    apply mended_later (fun id => (own_elsewhere elsewhere id).mpr)
      (fun _ _ _ => acknowledged_later elsewhere)
    exact mends.rows pair member
  · intro index flight id data late found mine put
    obtain ⟨old, there, same⟩ := elsewhere.added index flight found mine
    simp only [sent, Prod.mk.injEq] at same
    have owned := mends.own index old id data late there (same.1.symm.trans mine)
      (same.2.2.symm.trans put)
    exact (own_elsewhere elsewhere id).mpr owned
  · intro flight member id delete mine
    exact apart flight member id delete ((own_elsewhere elsewhere id).mp mine)
  · intro index flight id late found mine delete
    obtain ⟨old, there, same⟩ := elsewhere.added index flight found mine
    simp only [sent, Prod.mk.injEq] at same
    have replaced := mends.deletes index old id late there (same.1.symm.trans mine)
      (same.2.2.symm.trans delete)
    rw [same.2.1]
    unfold Order.Replaced
    rw [pairs]
    exact replaced

theorem environment_elsewhere {event : Event} (done : environment platform before event = some after) :
    order.Elsewhere before after := by
  have undisturbed := environment_undisturbed event done
  have drifts := environment_drifts event done
  constructor
  · unfold Db.shardsOf
    rw [undisturbed.shards]
  · exact (drifts_length drifts).ge
  · intro index flight found
    obtain ⟨later, there, follows⟩ := drifts_kept drifts found
    exact ⟨later, there, follows.sent, follows.state⟩
  · intro index flight found _
    obtain ⟨old, there, follows⟩ := drifts.flights index flight found
    exact ⟨old, there, follows.sent⟩
  · intro id
    rw [undisturbed.issued]
  · intro entry member
    rw [undisturbed.issued]
    exact member

theorem environment_mends {event : Event} (done : environment platform before event = some after)
    (may : order.allowed before (.env event)) (mends : order.Mends platform before) :
    order.Mends platform after := by
  have undisturbed := environment_undisturbed event done
  have drifts := environment_drifts event done
  have request : ∀ flight ∈ after.flights, ∃ old ∈ before.flights, flight.request = old.request := by
    intro flight member
    obtain ⟨index, inside, found⟩ := List.mem_iff_getElem.mp member
    obtain ⟨old, there, follows⟩ :=
      drifts.flights index flight (List.getElem?_eq_some_iff.mpr ⟨inside, found⟩)
    exact ⟨old, List.mem_of_getElem? there, congrArg (·.2.2) follows.sent⟩
  apply mends_elsewhere (environment_elsewhere done) mends
  · rw [undisturbed.files]
    exact mends.standing
  · intro faithful node id data acknowledged
    obtain ⟨index, flight, response, late, found, put, answered, created⟩ := acknowledged
    obtain ⟨old, there, follows⟩ := drifts.flights index flight found
    have earlier := follows.sent.symm.trans put
    simp only [sent, Prod.mk.injEq] at put earlier
    have mine := mends.own index old id data late there earlier.1 earlier.2.2
    obtain ⟨honest, undamaged⟩ := may faithful
    rcases follows.state with same | pending
    · have held := mends.stored faithful node id data ⟨index, old, response, late, there,
        by simp only [sent, earlier], same.symm.trans answered, created⟩
      apply object_kept done held
      · intro entry damaged
        exact undamaged node id entry damaged mine
      · intro other member _ _ delete
        exact mends.apart other member id delete mine
    · rw [← put.2.1]
      exact (put_stored done honest there pending found put.2.2 answered created).2
  · intro flight member id delete
    obtain ⟨old, there, same⟩ := request flight member
    exact mends.apart old there id (same.symm.trans delete)
  · intro flight member id names
    obtain ⟨old, there, same⟩ := request flight member
    unfold Known
    rw [undisturbed.issued]
    exact mends.named old there id (same ▸ names)

theorem life_known {thread : Tid} (life : Life thread before after) {id : Uuid}
    (known : Known before id) : Known after id := by
  obtain ⟨entry, member, rfl⟩ := List.mem_map.mp known
  exact List.mem_map_of_mem (life_issued life member)

theorem exec_request {thread : Tid} {request : Op} {answer : Res request}
    (done : exec thread before request answer = some after) :
    ∀ flight ∈ after.flights, (∃ old ∈ before.flights, flight.request = old.request) ∨
      ∃ one ∈ sends request, flight.request = one.2 := by
  intro flight member
  obtain ⟨index, inside, found⟩ := List.mem_iff_getElem.mp member
  rcases exec_flight done (List.getElem?_eq_some_iff.mpr ⟨inside, found⟩) with
    ⟨old, there, told⟩ | ⟨-, one, launched, rfl⟩
  · exact Or.inl ⟨old, List.mem_of_getElem? there, congrArg (·.2.2) told.sent⟩
  · exact Or.inr ⟨one, launched, rfl⟩

theorem acknowledged_exec {thread : Tid} {request : Op} {answer : Res request}
    (done : exec thread before request answer = some after) {node id : Uuid} {data : Bytes}
    (acknowledged : order.Acknowledged after node id data) :
    order.Acknowledged before node id data := by
  obtain ⟨index, flight, response, late, found, put, answered, created⟩ := acknowledged
  rcases exec_flight done found with ⟨old, there, told⟩ | ⟨-, one, -, rfl⟩
  · exact ⟨index, old, response, late, there, told.sent.symm.trans put,
      told.state.symm.trans answered, created⟩
  · cases answered

theorem stranger_rows {request : Nat} {fileId : Uuid} {writes : List Write}
    (wf : WellFormed before) (done : exec (.api request) before (.commit writes) () = some after)
    (life : Life (.api request) before after)
    (may : .deleteFile fileId ∉ writes ∧
      ∀ deletedAt linkVersion, .setDeleted fileId deletedAt linkVersion ∉ writes)
    (standing : ∃ file ∈ before.db.files, file.id = fileId ∧ file.status ≠ .deleted) :
    (∃ file ∈ after.db.files, file.id = fileId ∧ file.status ≠ .deleted) ∧
      after.db.shardsOf fileId = before.db.shardsOf fileId := by
  obtain ⟨transaction, db, rfl, enabled, committed, rfl⟩ := life_commit done life
  obtain ⟨effect, -⟩ := Ledger.enabled_effect enabled committed
  have files_eq : db.files = (transaction.effect (catalog before.db)).files :=
    congrArg Catalog.files effect
  obtain ⟨old, present, named, alive⟩ := standing
  have still : ∃ file ∈ (transaction.effect (catalog before.db)).files,
      file.id = fileId ∧ file.status ≠ .deleted := by
    -- An update keeps the ids, so the file is still found.
    have updated : ∀ other change, (∀ file : File, (change file).id = file.id) →
        (other = fileId → (change old).status ≠ .deleted) →
        ∃ file ∈ File.update other change before.db.files,
          file.id = fileId ∧ file.status ≠ .deleted := by
      intro other change ids standing
      refine ⟨_, List.mem_map_of_mem present, ?_⟩
      by_cases hit : old.id = other
      · rw [if_pos hit]
        exact ⟨(ids old).trans named, standing (hit.symm.trans named)⟩
      · rw [if_neg hit]
        exact ⟨named, alive⟩
    cases transaction with
    | upload file shards => exact ⟨old, List.mem_append_left _ present, named, alive⟩
    | publish other event =>
        exact updated other publishFile (fun _ => rfl) fun _ => by simp [publishFile]
    | retract other =>
        refine ⟨old, List.mem_filter.mpr ⟨present, ?_⟩, named, alive⟩
        have apart : fileId ≠ other := by simpa [Transaction.writes] using may.1
        simpa [named] using apart
    | revoke other deletedAt linkVersion event =>
        apply updated other (revokeFile deletedAt linkVersion) (fun _ => rfl)
        rintro rfl
        exact absurd (by simp [Transaction.writes]) (may.2 deletedAt linkVersion)
    | discard _ => exact ⟨old, present, named, alive⟩
    | repoint _ _ _ => exact ⟨old, present, named, alive⟩
    | observe _ => exact ⟨old, present, named, alive⟩
    | audit _ => exact ⟨old, present, named, alive⟩
  refine ⟨files_eq ▸ still, ?_⟩
  obtain ⟨file, inside, same, -⟩ := still
  have rows := Ledger.effect_shardsOf wf enabled old present ⟨file, inside, same.trans named.symm⟩
  simp only [← effect, catalog_shardsOf, named] at rows
  rcases rows with unchanged | ⟨-, gone⟩ | ⟨source, new, node, rfl, -⟩
  · exact unchanged
  · exact absurd gone alive
  · cases enabled.1

theorem stranger_elsewhere {request : Nat} {op : Op} {answer : Res op} (wf : WellFormed before)
    (done : exec (.api request) before op answer = some after)
    (life : Life (.api request) before after)
    (may : order.allowed before (.act (.api request) op answer))
    (mends : order.Mends platform before) : order.Elsewhere before after := by
  have grown := congrArg List.length (exec_wire done)
  simp only [wire, List.length_map, List.length_append] at grown
  constructor
  · cases op with
    | commit writes => exact (stranger_rows wf done life may mends.standing).2
    | uuid4 =>
        obtain ⟨-, same⟩ := Option.ite_none_right_eq_some.mp done
        cases same
        rfl
    | _ =>
        unfold Db.shardsOf
        rw [(exec_quiet (by trivial) done).shards]
  · omega
  · intro index flight found
    obtain ⟨later, there, told⟩ := exec_kept done found
    exact ⟨later, there, told.sent, Or.inl told.state⟩
  · intro index flight found mine
    rcases exec_flight done found with ⟨old, there, told⟩ | ⟨-, one, -, rfl⟩
    · exact ⟨old, there, told.sent⟩
    · cases mine
  · intro id
    cases life with
    | quiet undisturbed => rw [undisturbed.issued]
    | draw new fresh same =>
        subst same
        simp
    | commit transaction db enabled committed same =>
        subst same
        exact Iff.rfl
  · exact fun entry member => life_issued life member

/-- No step of another thread comes between a row and its objects. -/
theorem stranger_mends {request : Nat} {op : Op} {answer : Res op} (wf : WellFormed before)
    (done : exec (.api request) before op answer = some after)
    (life : Life (.api request) before after)
    (may : order.allowed before (.act (.api request) op answer))
    (naming : Naming before (.act (.api request) op answer))
    (mends : order.Mends platform before) : order.Mends platform after := by
  have elsewhere := stranger_elsewhere wf done life may mends
  apply mends_elsewhere elsewhere mends
  · cases op with
    | commit writes => exact (stranger_rows wf done life may mends.standing).1
    | uuid4 =>
        obtain ⟨-, same⟩ := Option.ite_none_right_eq_some.mp done
        cases same
        exact mends.standing
    | _ =>
        rw [(exec_quiet (by trivial) done).files]
        exact mends.standing
  · intro faithful node id data acknowledged
    rw [exec_objects done]
    exact mends.stored faithful node id data (acknowledged_exec done acknowledged)
  · intro flight member id delete
    rcases exec_request done flight member with ⟨old, there, same⟩ | ⟨one, launched, same⟩
    · exact mends.apart old there id (same.symm.trans delete)
    · cases op with
      | send requests => exact may one launched id (same.symm.trans delete)
      | _ => cases launched
  · intro flight member id names
    rcases exec_request done flight member with ⟨old, there, same⟩ | ⟨one, launched, same⟩
    · exact life_known life (mends.named old there id (same ▸ names))
    · cases op with
      | send requests => exact life_known life (naming one launched id (same ▸ names))
      | _ => cases launched

end Invariant

/-- The invariant as a layer: the worker keeps it, and everybody else stays elsewhere. -/
def Order.layer (platform : Platform) (order : Order) : Layer where
  inv := order.Mends platform
  move := fun thread before after => order.Mends platform after ∧ Lasting before after ∧
    (thread ≠ .worker → order.Elsewhere before after)
  drift := fun before after => order.Mends platform after ∧ order.Elsewhere before after
  allowed := fun shared label => order.allowed shared label ∧ Naming shared label

theorem layer_sound (platform : Platform) (order : Order) :
    Layering.Sound platform (order.layer platform) where
  move_inv := fun _ _ _ _ _ _ move => move.1
  drift_inv := fun _ _ _ _ _ drift => drift.1
  drifts := fun _ _ _ inv done may => ⟨environment_mends done may.1 inv, environment_elsewhere done⟩

section Worker
variable {platform : Platform} {order : Order} {post : Tid → Job → Outcome → Shared → Prop}
  {Out : Type} {result : Out → Shared → Prop} {holds : Shared → Prop} {state : Shared}

abbrev SafeOrder (platform : Platform) (order : Order) (post : Tid → Job → Outcome → Shared → Prop)
    (thread : Tid) (result : Out → Shared → Prop) (prog : Async Out) (state : Shared) : Prop :=
  Safe (service platform) ((order.layer platform).contract post) thread result prog state

theorem stranger_safe (request : Nat) (done : ∀ out later, result out later) (prog : Async Out) :
    SafeOrder platform order post (.api request) result prog state := by
  induction prog generalizing state with
  | ret out => exact fun later _ _ => done out later
  | op asked next ih =>
      apply layer_op (stable_const True) trivial
      intro before answer after wf mends _ taken life may
      constructor
      · exact ⟨stranger_mends wf taken life may.1 may.2 mends, exec_lasting taken,
          fun _ => stranger_elsewhere wf taken life may.1 mends⟩
      · exact ih answer

theorem order_stable
    (kept : ∀ other before after, other ≠ Tid.worker → WellFormed before → Life other before after →
      order.Elsewhere before after → holds before → holds after) :
    Stable ((order.layer platform).contract post) .worker holds := by
  apply layer_stable
  · intro before after wf _ undisturbed drift held
    exact kept (.api 0) before after (by simp) wf (.quiet undisturbed) drift.2 held
  · intro other before after different wf _ life move held
    exact kept other before after different wf life (move.2.2 different) held

theorem order_op {request : Op} {next : Res request → Async Out}
    (stable : Stable ((order.layer platform).contract post) .worker holds) (start : holds state)
    (step : ∀ before answer after, WellFormed before → order.Mends platform before → holds before →
      exec .worker before request answer = some after → WellFormed after →
        Life .worker before after →
        order.Mends platform after ∧
          SafeOrder platform order post .worker result (next answer) after) :
    SafeOrder platform order post .worker result (.op request next) state := by
  apply layer_op stable start
  intro before answer after wf mends held done life _
  obtain ⟨kept, safe⟩ := step before answer after wf mends held done (life_wellFormed life wf) life
  exact ⟨⟨kept, exec_lasting done, fun other => absurd rfl other⟩, safe⟩

theorem order_reads (request : Op) {next : Res request → Async Out} (reading : reads request)
    (stable : Stable ((order.layer platform).contract post) .worker holds) (start : holds state)
    (rest : ∀ before answer, WellFormed before → order.Mends platform before → holds before →
      exec .worker before request answer = some before →
        SafeOrder platform order post .worker result (next answer) before) :
    SafeOrder platform order post .worker result ((Prog.perform request).bind next) state := by
  apply order_op stable start
  intro before answer after wf mends held done _ _
  obtain rfl := exec_reads reading done
  exact ⟨mends, rest after answer wf mends held done⟩

/-- A step of the worker that leaves rows and drawn ids alone, and sends no more than it may. -/
theorem exec_mends {before after : Shared} {request : Op} {answer : Res request}
    (done : exec .worker before request answer = some after) (calm : quiet request)
    (puts : ∀ one ∈ sends request, ∀ id data, one.2 = .put id data → order.Own before id)
    (deletes : ∀ one ∈ sends request, ∀ id, one.2 = .delete id →
      ¬ order.Own before id ∧ order.Replaced before one.1 id)
    (named : ∀ one ∈ sends request, ∀ id, one.2.shard = some id → Known before id)
    (mends : order.Mends platform before) : order.Mends platform after := by
  have undisturbed := exec_quiet calm done
  have grown := congrArg List.length (exec_wire done)
  simp only [wire, List.length_map, List.length_append] at grown
  have own : ∀ id, order.Own after id ↔ order.Own before id := by
    intro id
    unfold Order.Own
    rw [undisturbed.issued]
  have rows : after.db.shardsOf order.fileId = before.db.shardsOf order.fileId := by
    unfold Db.shardsOf
    rw [undisturbed.shards]
  have pairs : order.pairs after = order.pairs before := by
    unfold Order.pairs
    rw [rows]
  -- The request writes no row: all that is new is what it has sent.
  constructor
  case standing =>
    rw [undisturbed.files]
    exact mends.standing
  case count =>
    rw [rows]
    exact mends.count
  case rows =>
    rw [pairs]
    intro pair member
    apply mended_later (fun id => (own id).mpr) ?_ (mends.rows pair member)
    rintro node id data ⟨index, flight, response, late, found, put, answered, created⟩
    obtain ⟨later, there, told⟩ := exec_kept done found
    exact ⟨index, later, response, late, there, told.sent.trans put,
      told.state.trans answered, created⟩
  case length => exact mends.length.trans (by omega)
  case own =>
    intro index flight id data late found mine put
    rcases exec_flight done found with ⟨old, there, told⟩ | ⟨-, one, launched, rfl⟩
    · have same := told.sent
      simp only [sent, Prod.mk.injEq] at same
      exact (own id).mpr (mends.own index old id data late there (same.1.symm.trans mine)
        (same.2.2.symm.trans put))
    · exact (own id).mpr (puts one launched id data put)
  case stored =>
    intro faithful node id data acknowledged
    rw [exec_objects done]
    exact mends.stored faithful node id data (acknowledged_exec done acknowledged)
  case apart =>
    intro flight member id delete mine
    have before_own := (own id).mp mine
    rcases exec_request done flight member with ⟨old, there, same⟩ | ⟨one, launched, same⟩
    · exact mends.apart old there id (same.symm.trans delete) before_own
    · exact (deletes one launched id (same.symm.trans delete)).1 before_own
  case deletes =>
    intro index flight id late found mine delete
    unfold Order.Replaced
    rw [pairs]
    rcases exec_flight done found with ⟨old, there, told⟩ | ⟨-, one, launched, rfl⟩
    · have same := told.sent
      simp only [sent, Prod.mk.injEq] at same
      rw [same.2.1]
      exact mends.deletes index old id late there (same.1.symm.trans mine)
        (same.2.2.symm.trans delete)
    · exact (deletes one launched id delete).2
  case named =>
    intro flight member id names
    have same : Known after = Known before := by
      funext id
      rw [Known, undisturbed.issued, Known]
    rw [same]
    rcases exec_request done flight member with ⟨old, there, same⟩ | ⟨one, launched, same⟩
    · exact mends.named old there id (same ▸ names)
    · exact named one launched id (same ▸ names)
  case earlier =>
    rw [undisturbed.issued]
    exact mends.earlier

/-- What depends on rows and drawn ids only survives the worker's own quiet steps. -/
def Settled (holds : Shared → Prop) : Prop :=
  ∀ before after, Undisturbed before after → holds before → holds after

theorem order_gets (batch : List (Shard × StorageNode)) {next : List Reply → Async Out}
    (stable : Stable ((order.layer platform).contract post) .worker holds)
    (settled : Settled holds) (start : holds state)
    (named : ∀ shared, order.Mends platform shared → holds shared → ∀ row ∈ batch,
      Known shared row.1.id)
    (rest : ∀ replies later, WellFormed later → holds later →
      SafeOrder platform order post .worker result (next replies) later) :
    SafeOrder platform order post .worker result ((gather (getRequests batch)).bind next) state := by
  have asks : ∀ one ∈ getRequests batch, ∃ row ∈ batch, one = (row.2.id, .get row.1.id) := by
    intro one member
    obtain ⟨row, inside, rfl⟩ := List.mem_map.mp member
    exact ⟨row, inside, rfl⟩
  apply order_op stable start
  intro before handles after wf mends held done _ _
  constructor
  · apply exec_mends done trivial ?_ ?_ ?_ mends
    · intro one member id data put
      obtain ⟨row, -, rfl⟩ := asks one member
      cases put
    · intro one member id delete
      obtain ⟨row, -, rfl⟩ := asks one member
      cases delete
    · intro one member id names
      obtain ⟨row, inside, rfl⟩ := asks one member
      cases names
      exact named before mends held row inside
  · apply order_op stable (settled before after (exec_quiet (by trivial) done) held)
    intro earlier replies later wf mends held done wfLater _
    constructor
    · exact exec_mends done trivial (by simp [sends]) (by simp [sends]) (by simp [sends]) mends
    · exact rest replies later wfLater (settled earlier later (exec_quiet (by trivial) done) held)

theorem known_stable (rows : List (Shard × StorageNode)) :
    Stable ((order.layer platform).contract post) .worker
      fun shared => ∀ row ∈ rows, Known shared row.1.id := by
  apply order_stable
  intro other before after _ _ life _ known row member
  exact life_known life (known row member)

theorem fetchRounds_mends (k fuel : Nat) (collected : Erasure.Blocks)
    (remaining : List (Shard × StorageNode))
    (stable : Stable ((order.layer platform).contract post) .worker holds)
    (settled : Settled holds) (start : holds state)
    (known : ∀ row ∈ remaining, Known state row.1.id) :
    SafeOrder platform order post .worker (fun _ later => holds later)
      (fetchRounds platform k fuel collected remaining) state := by
  induction fuel generalizing state collected remaining with
  | zero => exact safe_ret stable start fun _ _ held => held
  | succ fuel ih =>
      unfold fetchRounds
      split
      · apply order_gets _ (stable_and stable (known_stable remaining)) ?_ ⟨start, known⟩
        · intro shared _ both row member
          exact both.2 row (List.mem_of_mem_take member)
        · intro replies later _ both
          exact ih _ _ both.1 fun row member => both.2 row (List.mem_of_mem_drop member)
        · intro before after undisturbed both
          constructor
          · exact settled before after undisturbed both.1
          · intro row member
            unfold Known
            rw [undisturbed.issued]
            exact both.2 row member
      · exact safe_ret stable start fun _ _ held => held

/-- The rows still to be replaced stand as they were found; so many have moved. -/
structure Order.Pending (order : Order) (rows : List Shard) (done : Nat) (shared : Shared) : Prop where
  present : ∀ row ∈ rows, (row, row) ∈ order.pairs shared
  marked : ∀ row ∈ rows, row.id ∈ order.bad
  distinct : (rows.map (·.id)).Nodup
  counted : order.repointed shared = done

theorem pending_pairs {rows : List Shard} {done : Nat} {before after : Shared}
    (same : order.pairs after = order.pairs before) (pending : order.Pending rows done before) :
    order.Pending rows done after := by
  refine ⟨?_, pending.marked, pending.distinct, ?_⟩
  · rw [same]
    exact pending.present
  · unfold Order.repointed
    rw [same]
    exact pending.counted

theorem pending_stable (rows : List Shard) (done : Nat) :
    Stable ((order.layer platform).contract post) .worker (order.Pending rows done) := by
  apply order_stable
  intro other before after _ _ _ elsewhere pending
  exact pending_pairs (pairs_elsewhere elsewhere) pending

theorem repointed_stable (count : Nat) :
    Stable ((order.layer platform).contract post) .worker
      fun shared => order.repointed shared = count := by
  apply order_stable
  intro other before after _ _ _ elsewhere counted
  unfold Order.repointed
  rw [pairs_elsewhere elsewhere]
  exact counted

theorem pending_settled (rows : List Shard) (done : Nat) : Settled (order.Pending rows done) := by
  intro before after undisturbed pending
  apply pending_pairs ?_ pending
  unfold Order.pairs Db.shardsOf
  rw [undisturbed.shards]

theorem pending_sublist {rows fewer : List Shard} {done : Nat} {shared : Shared}
    (sub : fewer.Sublist rows) (pending : order.Pending rows done shared) :
    order.Pending fewer done shared :=
  ⟨fun row member => pending.present row (sub.subset member),
    fun row member => pending.marked row (sub.subset member),
    pending.distinct.sublist (sub.map _), pending.counted⟩

def Order.Fresh (order : Order) (newId : Uuid) (shared : Shared) : Prop :=
  order.Own shared newId ∧ newId ∉ used shared

theorem fresh_stable (newId : Uuid) :
    Stable ((order.layer platform).contract post) .worker (order.Fresh newId) := by
  apply order_stable
  intro other before after different wf life elsewhere fresh
  refine ⟨(own_elsewhere elsewhere newId).mpr fresh.1, fun member => ?_⟩
  rcases life_used life member with old | theirs
  · exact fresh.2 old
  · exact different (issued_once wf theirs fresh.1.1)

theorem fresh_settled (newId : Uuid) : Settled (order.Fresh newId) := by
  intro before after undisturbed fresh
  constructor
  · unfold Order.Own
    rw [undisturbed.issued]
    exact fresh.1
  · simpa only [used, undisturbed.log] using fresh.2

theorem origin_known (wfStart : WellFormed order.start) {row : Shard} (found : row ∈ order.origin) :
    row.id ∈ order.start.issued.map (·.2) :=
  wfStart.used_issued _ (wfStart.shards_used row (List.mem_filter.mp found).1)

theorem pair_members {shared : Shared} {pair : Shard × Shard} (member : pair ∈ order.pairs shared) :
    pair.1 ∈ order.origin ∧ pair.2 ∈ shared.db.shards := by
  obtain ⟨old, row⟩ := pair
  obtain ⟨found, stands⟩ := List.of_mem_zip member
  exact ⟨found, (List.mem_filter.mp stands).1⟩

theorem mends_draw {before : Shared} {newId : Uuid} (fresh : newId ∉ before.issued.map (·.2))
    (mends : order.Mends platform before) :
    order.Mends platform { before with issued := (.worker, newId) :: before.issued } ∧
      order.Own { before with issued := (.worker, newId) :: before.issued } newId := by
  have own : ∀ id, order.Own before id →
      order.Own { before with issued := (.worker, newId) :: before.issued } id :=
    fun id mine => ⟨List.mem_cons_of_mem _ mine.1, mine.2⟩
  have later : newId ∉ order.start.issued.map (·.2) := by
    intro old
    obtain ⟨entry, member, rfl⟩ := List.mem_map.mp old
    exact fresh (List.mem_map_of_mem (mends.earlier entry member))
  refine ⟨⟨mends.standing, mends.count, ?_, mends.length, ?_, mends.stored, ?_, mends.deletes, ?_,
    fun entry member => List.mem_cons_of_mem _ (mends.earlier entry member)⟩,
    List.mem_cons_self, later⟩
  · intro pair member
    exact mended_later own (fun _ _ _ told => told) (mends.rows pair member)
  · exact fun index flight id data late found mine put =>
      own id (mends.own index flight id data late found mine put)
  · intro flight member id delete mine
    rcases List.mem_cons.mp mine.1 with same | old
    · have drawn : id = newId := congrArg Prod.snd same
      exact fresh (drawn ▸ mends.named flight member id (by rw [delete]; rfl))
    · exact mends.apart flight member id delete ⟨old, mine.2⟩
  · intro flight member id names
    exact List.mem_cons_of_mem _ (mends.named flight member id names)

theorem countP_one {Item : Type} {items : List Item} {before after : Item → Bool} {one : Item}
    (distinct : items.Nodup) (member : one ∈ items) (not_yet : before one = false)
    (now : after one = true) (same : ∀ item ∈ items, item ≠ one → after item = before item) :
    items.countP after = items.countP before + 1 := by
  induction items with
  | nil => cases member
  | cons item rest ih =>
      obtain ⟨absent, tail⟩ := List.nodup_cons.mp distinct
      rw [List.countP_cons, List.countP_cons]
      by_cases here : item = one
      · subst here
        have others : rest.countP after = rest.countP before := by
          apply List.countP_congr
          intro other inside
          have apart : other ≠ item := fun hit => absent (hit ▸ inside)
          rw [same other (List.mem_cons_of_mem _ inside) apart]
        rw [others, not_yet, now]
        simp
      · have inside := List.mem_of_ne_of_mem (Ne.symm here) member
        rw [ih tail inside fun other later => same other (List.mem_cons_of_mem _ later),
          same item List.mem_cons_self here]
        omega

theorem pairs_repoint (order : Order) {before after : Shared} {old new node : Uuid}
    (shards : after.db.shards = before.db.shards.map (repointShard old new node)) :
    order.pairs after =
      (order.pairs before).map fun pair => (pair.1, repointShard old new node pair.2) := by
  unfold Order.pairs
  rw [shardsOf_repoint shards, List.zip_map_right]
  rfl

theorem pairs_nodup {shared : Shared} (wf : WellFormed shared) : (order.pairs shared).Nodup := by
  apply List.Nodup.of_map Prod.snd
  have rows : (shared.db.shardsOf order.fileId).Nodup :=
    (List.Nodup.of_map _ wf.shards_nodup).sublist List.filter_sublist
  refine List.Nodup.sublist ?_ rows
  exact Upkeep.zip_snd_sublist _ _

/-- A row moves to a rebuilt object that its node has acknowledged. -/
theorem mends_repoint {before after : Shared} {shard : Shard} {newId node : Uuid} {data : Bytes}
    (wfStart : WellFormed order.start) (wf : WellFormed before)
    (mends : order.Mends platform before) (present : (shard, shard) ∈ order.pairs before)
    (marked : shard.id ∈ order.bad) (own : order.Own before newId)
    (acknowledged : order.Acknowledged before node newId data)
    (checksum : platform.sha256Hex data = shard.checksumSha256)
    (shards : after.db.shards = before.db.shards.map (repointShard shard.id newId node))
    (files : after.db.files = before.db.files) (flights : after.flights = before.flights)
    (issued : after.issued = before.issued) (objects : after.objects = before.objects) :
    order.Mends platform after := by
  have owns : order.Own after = order.Own before := by
    funext id
    unfold Order.Own
    rw [issued]
  have told : order.Acknowledged after = order.Acknowledged before := by
    funext node id data
    unfold Order.Acknowledged
    rw [flights]
  have known : Known after = Known before := by
    funext id
    rw [Known, issued, Known]
  have pairs := pairs_repoint order shards
  have there := (pair_members present).2
  constructor
  case standing => exact files ▸ mends.standing
  case count =>
    rw [shardsOf_repoint shards, List.length_map]
    exact mends.count
  case rows =>
    rw [pairs]
    intro pair member
    obtain ⟨earlier, inside, rfl⟩ := List.mem_map.mp member
    have stood := mends.rows earlier inside
    -- Only the pair of the bad shard changes; it cannot have moved before.
    by_cases hit : earlier.2.id = shard.id
    · have same : earlier.2 = shard :=
        List.inj_on_of_nodup_map wf.shards_nodup (pair_members inside).2 there hit
      cases stood with
      | kept unmoved =>
          have found : earlier.1 = shard := unmoved.symm.trans same
          have moves : repointShard shard.id newId node earlier.2 =
              { earlier.1 with id := newId, nodeId := node } := by
            rw [same, found]
            simp [repointShard]
          dsimp only
          rw [moves]
          refine .moved ?_ rfl ?_ data ?_ ?_
          · rw [found]
            exact marked
          · rw [owns]
            exact own
          · rw [found]
            exact checksum
          · rw [told]
            exact acknowledged
      | moved _ _ mine _ _ _ =>
          rw [hit] at mine
          exact absurd (origin_known wfStart (pair_members present).1) mine.2
    · have stays : repointShard shard.id newId node earlier.2 = earlier.2 := by
        simp [repointShard, hit]
      dsimp only
      rw [stays]
      exact mended_later (fun _ mine => owns ▸ mine) (fun _ _ _ held => told ▸ held) stood
  case length => exact flights ▸ mends.length
  case own =>
    rw [flights, owns]
    exact mends.own
  case stored =>
    rw [told, objects]
    exact mends.stored
  case apart =>
    rw [flights, owns]
    exact mends.apart
  case deletes =>
    rw [flights]
    intro index flight id late found mine delete
    obtain ⟨pair, member, named, onNode, moved⟩ := mends.deletes index flight id late found mine delete
    refine ⟨(pair.1, repointShard shard.id newId node pair.2), ?_, named, onNode, ?_⟩
    · rw [pairs]
      exact List.mem_map_of_mem member
    -- The new id was unknown at the start, so it names no old object.
    · by_cases hit : pair.2.id = shard.id
      · simp only [repointShard, hit, if_true]
        rintro rfl
        exact own.2 (named ▸ origin_known wfStart (pair_members member).1)
      · simpa only [repointShard, hit, if_false] using moved
  case named =>
    rw [flights, known]
    exact mends.named
  case earlier => exact issued ▸ mends.earlier

theorem pending_repoint {before after : Shared} {shard : Shard} {rows : List Shard} {done : Nat}
    {newId node : Uuid} (wfStart : WellFormed order.start) (wf : WellFormed before)
    (pending : order.Pending (shard :: rows) done before) (own : order.Own before newId)
    (shards : after.db.shards = before.db.shards.map (repointShard shard.id newId node)) :
    order.Pending rows (done + 1) after ∧ order.Replaced after shard.nodeId shard.id := by
  have here := pending.present shard List.mem_cons_self
  have pairs := pairs_repoint order shards
  have different : newId ≠ shard.id := by
    rintro rfl
    exact own.2 (origin_known wfStart (pair_members here).1)
  have moves : repointShard shard.id newId node shard = { shard with id := newId, nodeId := node } := by
    simp [repointShard]
  obtain ⟨apart, distinct⟩ := List.nodup_cons.mp pending.distinct
  constructor
  · refine ⟨fun row member => ?_, fun row member => pending.marked row (List.mem_cons_of_mem _ member),
      distinct, ?_⟩
    · have other : row.id ≠ shard.id := fun hit => apart (List.mem_map.mpr ⟨row, member, hit⟩)
      rw [pairs]
      refine List.mem_map.mpr ⟨(row, row), pending.present row (List.mem_cons_of_mem _ member), ?_⟩
      simp [repointShard, other]
    · have counted := pending.counted
      unfold Order.repointed at counted ⊢
      rw [pairs, List.countP_map, ← counted]
      apply countP_one (pairs_nodup wf) here
      · simp
      · simpa [moves] using different
      · intro pair member other
        by_cases hit : pair.2.id = shard.id
        · have same : pair.2 = shard :=
            List.inj_on_of_nodup_map wf.shards_nodup (pair_members member).2 (pair_members here).2 hit
          have unlike : pair.1.id ≠ shard.id := by
            intro named
            have found : pair.1 = shard :=
              List.inj_on_of_nodup_map wfStart.shards_nodup
                (List.mem_filter.mp (pair_members member).1).1
                (List.mem_filter.mp (pair_members here).1).1 named
            exact other (Prod.ext found same)
          have unlikeNew : pair.1.id ≠ newId := by
            rintro rfl
            exact own.2 (origin_known wfStart (pair_members member).1)
          simp [repointShard, hit, unlike.symm, unlikeNew.symm]
        · simp [repointShard, hit]
  · refine ⟨(shard, { shard with id := newId, nodeId := node }), ?_, rfl, rfl, different⟩
    rw [pairs]
    exact List.mem_map.mpr ⟨(shard, shard), here, by rw [moves]⟩

def Placed (index : Nat) (node newId : Uuid) (block : Bytes) (shared : Shared) : Prop :=
  ∃ flight, shared.flights[index]? = some flight ∧ sent flight = (.worker, node, .put newId block)

theorem placed_stable (index : Nat) (node newId : Uuid) (block : Bytes) :
    Stable ((order.layer platform).contract post) .worker (Placed index node newId block) := by
  apply order_stable
  rintro other before after - - - elsewhere ⟨flight, found, put⟩
  obtain ⟨later, there, same, -⟩ := elsewhere.kept index flight found
  exact ⟨later, there, same.trans put⟩

theorem acknowledged_stable (node newId : Uuid) (data : Bytes) :
    Stable ((order.layer platform).contract post) .worker
      fun shared => order.Acknowledged shared node newId data := by
  apply order_stable
  intro other before after _ _ _ elsewhere
  exact acknowledged_later elsewhere

theorem replaced_stable (node id : Uuid) :
    Stable ((order.layer platform).contract post) .worker
      fun shared => order.Replaced shared node id := by
  apply order_stable
  intro other before after _ _ _ elsewhere replaced
  unfold Order.Replaced
  rw [pairs_elsewhere elsewhere]
  exact replaced

theorem told_acknowledged {before after : Shared} {index : Nat} {node newId : Uuid} {block : Bytes}
    {replies : List Reply} (late : order.base ≤ index)
    (placed : Placed index node newId block before)
    (done : exec .worker before (.await [index]) replies = some after)
    (success : succeeded (putShard (replies.headD none)) = true) :
    order.Acknowledged after node newId block := by
  obtain ⟨flights, replied, rfl⟩ := Option.map_eq_some_iff.mp done
  obtain ⟨reply, flight, rfl, found, told, rfl⟩ := awaitReplies_one replied
  obtain ⟨same, there, put⟩ := placed
  obtain rfl := Option.some.inj (there.symm.trans found)
  obtain ⟨response, answered, created⟩ := succeeded_put.mp success
  change reply = some response at answered
  subst answered
  have inside := (List.getElem?_eq_some_iff.mp found).1
  exact ⟨index, { same with reply := some (some response) }, response, late, by simp [inside], put,
    by simpa [Flight.mayReply] using told, created⟩

/-- The PUT of a rebuilt block under a fresh id, and its answer. -/
theorem put_mends {rows : List Shard} {done : Nat} {newId target : Uuid} {block : Bytes}
    {next : List Reply → Async Out}
    (start : order.Fresh newId state ∧ order.Pending rows done state)
    (rest : ∀ replies told, order.Fresh newId told → order.Pending rows done told →
      (succeeded (putShard (replies.headD none)) = true →
        order.Acknowledged told target newId block) →
      SafeOrder platform order post .worker result (next replies) told) :
    SafeOrder platform order post .worker result
      ((gather [(target, .put newId block)]).bind next) state := by
  apply order_op (stable_and (fresh_stable newId) (pending_stable _ _)) start
  intro sending handles launched wf mends held taken _ _
  have undisturbed := exec_quiet (by trivial) taken
  refine ⟨exec_mends taken trivial ?_ ?_ ?_ mends, ?_⟩
  · rintro one member id data put
    rw [List.mem_singleton.mp member] at put
    cases put
    exact held.1.1
  · rintro one member id delete
    rw [List.mem_singleton.mp member] at delete
    cases delete
  · rintro one member id names
    rw [List.mem_singleton.mp member] at names
    cases names
    exact List.mem_map_of_mem held.1.1.1
  have placed : Placed sending.flights.length target newId block launched := by
    obtain ⟨-, same⟩ := Option.ite_none_right_eq_some.mp taken
    cases same
    exact ⟨⟨.worker, target, .put newId block, .pending, none⟩, by simp [launch], rfl⟩
  obtain ⟨rfl, -⟩ := Option.ite_none_right_eq_some.mp taken
  have late : order.base ≤ sending.flights.length := mends.length
  -- its answer
  apply order_op (stable_and (stable_and (fresh_stable newId) (pending_stable _ _))
    (placed_stable sending.flights.length target newId block))
    ⟨⟨fresh_settled newId _ _ undisturbed held.1, pending_settled _ _ _ _ undisturbed held.2⟩,
      placed⟩
  intro waiting replies told wf mends held taken _ _
  have undisturbed := exec_quiet (by trivial) taken
  refine ⟨exec_mends taken trivial (by simp [sends]) (by simp [sends]) (by simp [sends]) mends, ?_⟩
  exact rest replies told (fresh_settled newId _ _ undisturbed held.1.1)
    (pending_settled _ _ _ _ undisturbed held.1.2) (told_acknowledged late held.2 taken)

theorem repoint_mends (wfStart : WellFormed order.start) {shard : Shard} {rows : List Shard}
    {done : Nat} {newId node : Uuid} {block : Bytes} {next : Unit → Async Out}
    (checksum : platform.sha256Hex block = shard.checksumSha256)
    (start : (order.Fresh newId state ∧ order.Pending (shard :: rows) done state) ∧
      order.Acknowledged state node newId block)
    (rest : ∀ repointed, order.Pending rows (done + 1) repointed →
      order.Replaced repointed shard.nodeId shard.id →
        SafeOrder platform order post .worker result (next ()) repointed) :
    SafeOrder platform order post .worker result
      (.op (.commit [.repoint shard.id newId node]) next) state := by
  apply order_op (stable_and (stable_and (fresh_stable newId) (pending_stable _ _))
    (acknowledged_stable node newId block)) start
  intro committing _ repointed wf mends held taken _ _
  obtain ⟨db, committed, rfl⟩ := Option.map_eq_some_iff.mp taken
  obtain ⟨middle, one, last⟩ := Option.bind_eq_some_iff.mp committed
  cases last
  obtain ⟨-, same⟩ := Option.ite_none_right_eq_some.mp one
  cases same
  obtain ⟨⟨fresh, pending⟩, acknowledged⟩ := held
  have moved : ∀ later : Shared,
      later.db.shards = committing.db.shards.map (repointShard shard.id newId node) →
        order.Pending rows (done + 1) later ∧ order.Replaced later shard.nodeId shard.id :=
    fun later shards => pending_repoint wfStart wf pending fresh.1 shards
  exact ⟨mends_repoint wfStart wf mends (pending.present shard List.mem_cons_self)
    (pending.marked shard List.mem_cons_self) fresh.1 acknowledged checksum rfl rfl rfl rfl rfl,
    rest _ (moved _ rfl).1 (moved _ rfl).2⟩

theorem delete_mends {rows : List Shard} {done : Nat} {node id : Uuid}
    {next : List Reply → Async Out} (found : id ∈ order.start.issued.map (·.2))
    (start : order.Pending rows done state ∧ order.Replaced state node id)
    (rest : ∀ replies deleted, order.Pending rows done deleted →
      SafeOrder platform order post .worker result (next replies) deleted) :
    SafeOrder platform order post .worker result
      ((gather [(node, .delete id)]).bind next) state := by
  apply order_op (stable_and (pending_stable _ _) (replaced_stable _ _)) start
  intro deleting handles launched wf mends held taken _ _
  refine ⟨exec_mends taken trivial ?_ ?_ ?_ mends, ?_⟩
  · rintro one member id data put
    rw [List.mem_singleton.mp member] at put
    cases put
  · rintro one member id delete
    rw [List.mem_singleton.mp member] at delete ⊢
    cases delete
    exact ⟨fun mine => mine.2 found, held.2⟩
  · rintro one member id names
    rw [List.mem_singleton.mp member] at names
    cases names
    obtain ⟨entry, inside, drawn⟩ := List.mem_map.mp found
    exact List.mem_map.mpr ⟨entry, mends.earlier entry inside, drawn⟩
  apply order_op (pending_stable _ _)
    (pending_settled _ _ _ _ (exec_quiet (by trivial) taken) held.1)
  intro waiting replies deleted wf mends pending taken _ _
  refine ⟨exec_mends taken trivial (by simp [sends]) (by simp [sends]) (by simp [sends]) mends, ?_⟩
  exact rest replies deleted (pending_settled _ _ _ _ (exec_quiet (by trivial) taken) pending)

/-- The loop moves exactly the rows it counts. -/
theorem repairShards_mends (wfStart : WellFormed order.start)
    (items : List ((Shard × StorageNode) × Bytes × StorageNode)) (done : Nat)
    (joined : ∀ item ∈ items, item.1.2.id = item.1.1.nodeId)
    (start : order.Pending (items.map (·.1.1)) done state) :
    SafeOrder platform order post .worker (fun count later => order.repointed later = done + count)
      (repairShards platform items) state := by
  induction items generalizing done state with
  | nil => exact safe_ret (pending_stable _ _) start fun _ _ pending => pending.counted
  | cons item rest ih =>
      obtain ⟨⟨shard, oldNode⟩, block, target⟩ := item
      have onNode : oldNode.id = shard.nodeId := joined _ List.mem_cons_self
      have others : ∀ item ∈ rest, item.1.2.id = item.1.1.nodeId :=
        fun item member => joined item (List.mem_cons_of_mem _ member)
      unfold repairShards
      split
      · exact ih _ others (pending_sublist (List.sublist_cons_self _ _) start)
      rename_i matching
      have checksum : platform.sha256Hex block = shard.checksumSha256 :=
        Decidable.of_not_not matching
      apply order_op (pending_stable _ _) start
      intro before newId drawn wf mends pending taken _ _
      obtain ⟨fresh, same⟩ := Option.ite_none_right_eq_some.mp taken
      cases same
      obtain ⟨drew, own⟩ := mends_draw fresh mends
      refine ⟨drew, ?_⟩
      -- The new object takes an id that no row has.
      have unused : newId ∉ used before := fun member => fresh (wf.used_issued newId member)
      have ready : order.Pending (shard :: rest.map (·.1.1)) done
          { before with issued := (.worker, newId) :: before.issued } :=
        ⟨pending.present, pending.marked, pending.distinct, pending.counted⟩
      have found := origin_known wfStart (pair_members
        (pending.present shard List.mem_cons_self)).1
      change SafeOrder platform order post .worker _
        ((gather [(target.id, .put newId block)]).bind fun replies =>
          if succeeded (putShard (replies.headD none)) = true then _ else _) _
      apply put_mends ⟨⟨own, unused⟩, ready⟩
      intro replies told fresh pending acknowledged
      split
      · rename_i success
        apply repoint_mends wfStart checksum ⟨⟨fresh, pending⟩, acknowledged success⟩
        intro repointed waits replaced
        change SafeOrder platform order post .worker _
          ((gather [(oldNode.id, .delete shard.id)]).bind fun _ =>
            (repairShards platform rest).bind fun repaired => .ret (repaired + 1)) _
        rw [← onNode] at replaced
        apply delete_mends found ⟨waits, replaced⟩
        intro _ deleted waits
        refine safe_bind (ih _ others waits) fun count later _ counted => ?_
        exact safe_ret (repointed_stable _) counted fun _ _ counted =>
          counted.trans (Nat.add_right_comm done 1 count)
      · exact ih _ others (pending_sublist (List.sublist_cons_self _ _) pending)

def Order.Untouched (order : Order) (shared : Shared) : Prop :=
  shared.db.shardsOf order.fileId = order.origin

theorem untouched_stable :
    Stable ((order.layer platform).contract post) .worker order.Untouched := by
  apply order_stable
  intro other before after _ _ _ elsewhere untouched
  exact elsewhere.rows.trans untouched

theorem untouched_pairs {shared : Shared} (untouched : order.Untouched shared) :
    order.pairs shared = order.origin.map fun row => (row, row) := by
  unfold Order.pairs
  rw [untouched]
  exact List.zipWith_self

theorem untouched_repointed {shared : Shared} (untouched : order.Untouched shared) :
    order.repointed shared = 0 := by
  unfold Order.repointed
  rw [untouched_pairs untouched, List.countP_map]
  simp

theorem untouched_pending {before : Shared} (wf : WellFormed before)
    (untouched : order.Untouched before) {placed : List (Shard × StorageNode)}
    (found : placed.Perm (before.db.placed.filter fun row => row.1.fileId = order.fileId)) :
    order.Pending ((placed.filter fun row => row.1.id ∈ order.bad).map Prod.fst) 0 before := by
  have joined : ∀ row ∈ placed, row.1 ∈ before.db.shardsOf order.fileId := by
    intro row member
    obtain ⟨present, owner⟩ := List.mem_filter.mp (found.mem_iff.mp member)
    exact List.mem_filter.mpr ⟨(placed_shard present).1, owner⟩
  refine ⟨fun row member => ?_, fun row member => ?_, ?_, untouched_repointed untouched⟩
  · obtain ⟨entry, inside, rfl⟩ := List.mem_map.mp member
    have stands := joined entry (List.mem_filter.mp inside).1
    rw [untouched] at stands
    rw [untouched_pairs untouched]
    exact List.mem_map_of_mem stands
  · obtain ⟨entry, inside, rfl⟩ := List.mem_map.mp member
    exact of_decide_eq_true (List.mem_filter.mp inside).2
  · have rows := ((found.map Prod.fst).map (·.id)).nodup_iff
    have distinct := rows.mpr (wf.shards_nodup.sublist (List.Sublist.map _
      ((List.filter_sublist.map _).trans (placed_sublist wf.nodes_nodup))))
    exact distinct.sublist ((List.filter_sublist.map _).map _)

/-- A repair keeps the relation between rows and objects, and returns how many rows it moved. -/
theorem repairFile_mends (wfStart : WellFormed order.start) (start : order.Untouched state) :
    SafeOrder platform order post .worker
      (fun out later => ∀ count, out = .ok count → order.repointed later = count)
      (repairFile platform order.fileId order.bad) state := by
  -- Every early return is before the first row moves.
  have none_moved : ∀ {later}, order.Untouched later → SafeOrder platform order post .worker
      (fun out last => ∀ count, out = .ok count → order.repointed last = count)
      (.ret (.ok 0 : Except Erasure.ErasureError Nat)) later := by
    intro later untouched
    refine safe_ret untouched_stable untouched ?_
    intro last _ untouched count same
    cases same
    exact untouched_repointed untouched
  apply order_reads (.selectFiles _) trivial untouched_stable start
  intro before found wf _ untouched _
  dsimp only [Prog.bind]
  cases found.head? with
  | none => exact none_moved untouched
  | some file =>
  dsimp only
  split
  · exact none_moved untouched
  apply order_reads (.selectPlaced _) trivial untouched_stable untouched
  intro before placed wf _ untouched taken
  obtain ⟨rows, -⟩ := Option.ite_none_right_eq_some.mp taken
  have pending := untouched_pending wf untouched rows
  have joined : ∀ row ∈ placed, row.2.id = row.1.nodeId := fun row member =>
    (placed_shard (List.mem_filter.mp (rows.mem_iff.mp member)).1).2.2
  apply order_reads (.selectPlaced _) trivial (pending_stable _ _) pending
  intro before candidates wf _ pending taken
  obtain ⟨rows, -⟩ := Option.ite_none_right_eq_some.mp taken
  have known : ∀ row ∈ candidates, Known before row.1.id := by
    intro row member
    have stored := (placed_shard (List.mem_filter.mp (rows.mem_iff.mp member)).1).1
    exact wf.used_issued _ (wf.shards_used row.1 stored)
  -- Reading the sources leaves the rows pending.
  refine safe_bind (fetchRounds_mends _ _ _ _ (pending_stable _ _) (pending_settled _ _) pending ?_) ?_
  · intro row member
    have kept := (List.mem_filter.mp ((List.perm_insertionSort _ _).mem_iff.mp member)).1
    obtain ⟨entry, inside, rfl⟩ := List.mem_map.mp kept
    exact known entry inside
  intro blocks later _ pending
  have ended : ∀ {out : Except Erasure.ErasureError Nat} {later : Shared},
      (∀ count, out = .ok count → count = 0) → order.Pending ((placed.filter fun row =>
        row.1.id ∈ order.bad).map Prod.fst) 0 later → SafeOrder platform order post .worker
      (fun out last => ∀ count, out = .ok count → order.repointed last = count) (.ret out) later := by
    intro out later zero pending
    refine safe_ret (pending_stable _ _) pending ?_
    intro last _ pending count same
    exact pending.counted.trans (zero count same).symm
  split
  · exact ended (by simp) pending
  apply order_reads (.selectNodes _) trivial (pending_stable _ _) pending
  intro before healthy _ _ pending _
  apply order_reads (.shuffle _) trivial (pending_stable _ _) pending
  intro before targets _ _ pending _
  split
  · exact ended (by simp) pending
  rename_i rebuilt _
  have repaired := Upkeep.zip_fst_sublist (placed.filter fun row => row.1.id ∈ order.bad)
    (rebuilt.zip targets)
  have fewer : order.Pending ((((placed.filter fun row => row.1.id ∈ order.bad).zip
      (rebuilt.zip targets))).map (·.1.1)) 0 before := by
    apply pending_sublist ?_ pending
    simpa [List.map_map, Function.comp_def] using repaired.map Prod.fst
  refine safe_bind (repairShards_mends wfStart _ 0 ?_ fewer) ?_
  · intro item member
    have inside := repaired.subset (List.mem_map_of_mem member)
    exact joined _ (List.mem_filter.mp inside).1
  · intro count later _ counted
    refine safe_ret (repointed_stable _) counted ?_
    rintro last _ counted returned same
    cases same
    exact counted.trans (Nat.zero_add count)

end Worker

end SecureFileSystem.RepairSafety
