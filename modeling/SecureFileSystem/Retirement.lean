import SecureFileSystem.NodeHealth
import SecureFileSystem.RepairPass
import SecureFileSystem.RepairReaders

/-!
Retiring nodes that still serve. The rows on the nodes that stay are left alone by
the pass and by everybody else, so the file can be read all the time; the pass
moves the others.
-/

namespace SecureFileSystem.Retirement

open Base Database Fleet Session LifeCycle Program Transition RelyGuarantee Erasure Files
  SecureFileSystem.Configuration Maintenance Service Interference Stability Conduct Guarantees Wire
  Objects Records Layering Reading Durability Restoration BitRot RepairSafety RepairPass
open RepairReaders (Shelter SafeReader copy_reader standing_selected among_counted)
open Reliable (Alone)

/-- Rows of a file that stand, and are read as they should be from `base` on. -/
structure Stays (platform : Platform) (fileId : Uuid) (good : List Shard) (base : Nat)
    (shared : Shared) : Prop where
  standing : ∃ file ∈ shared.db.files, file.id = fileId ∧ file.status ≠ .deleted
  rows : ∀ row ∈ good, row ∈ shared.db.shardsOf fileId
  intact : ∀ row ∈ good, Reliable.Intact platform shared row
  distinct : (shared.db.nodes.map (·.id)).Nodup
  up : ∀ row ∈ good, Up shared row.nodeId
  length : base ≤ shared.flights.length
  spared : ∀ flight ∈ shared.flights, flight.state = .pending → ∀ row ∈ good,
    flight.node = row.nodeId → flight.request ≠ .delete row.id
  told : ∀ (index : Nat) (flight : Flight Tid) (response : HttpResponse), base ≤ index →
    shared.flights[index]? = some flight → flight.state = .answered response → ∀ row ∈ good,
      flight.node = row.nodeId → flight.request = .get row.id →
        ∃ block, getShard (some response) = .ok block ∧
          platform.sha256Hex block = row.checksumSha256

/-- The worker only runs such passes, nobody deletes the file or these objects, and
their nodes stay healthy and answer every request. -/
def Tended (fileId : Uuid) (good : List Shard) (shared : Shared) : ServiceLabel → Prop
  | .start thread job => thread = .worker → ∃ settings, job = .repairLostShards settings
  | .act (.api _) (.commit writes) _ => .deleteFile fileId ∉ writes ∧
      ∀ deletedAt linkVersion, .setDeleted fileId deletedAt linkVersion ∉ writes
  | .act (.api _) (.send requests) _ => ∀ one ∈ requests, ∀ row ∈ good, one.2 ≠ .delete row.id
  | .act (.api _) (.await handles) replies =>
      ∀ (position handle : Nat) (flight : Flight Tid), handles[position]? = some handle →
        shared.flights[handle]? = some flight → (∃ row ∈ good, flight.node = row.nodeId) →
          replies[position]? ≠ some none
  | .env (.misreply handle _) => ∀ flight, shared.pending handle = some flight →
      ∀ row ∈ good, flight.node ≠ row.nodeId
  | .env (.damage node id _) => ∀ row ∈ good, ¬ (row.nodeId = node ∧ row.id = id)
  | .env (.operator node status) => ∀ row ∈ good, row.nodeId = node → status = .healthy
  | _ => True

/-- Requests do not edit the node table. -/
def Ordinary : ServiceLabel → Prop
  | .act (.api _) request _ => Attribution.Within (fun write => ¬ ofNodes write) request
  | _ => True

section Steps
variable {platform : Platform} {fileId : Uuid} {good : List Shard} {base : Nat}
  {before after : Shared}

theorem environment_up {event : Event} {id : Uuid} (up : Up before id)
    (kept : ∀ status, event = .operator id status → status = .healthy)
    (done : environment platform before event = some after) : Up after id := by
  obtain ⟨node, registered, named, healthy⟩ := up
  cases event with
  | tick _ => cases done; exact ⟨node, registered, named, healthy⟩
  | damage _ _ _ => cases done; exact ⟨node, registered, named, healthy⟩
  | execute handle =>
      obtain ⟨flight, -, rfl⟩ := Option.map_eq_some_iff.mp done
      unfold Shared.execute
      split <;> exact ⟨node, registered, named, healthy⟩
  | lose handle =>
      obtain ⟨flight, -, rfl⟩ := Option.map_eq_some_iff.mp done
      exact ⟨node, registered, named, healthy⟩
  | misreply handle response =>
      obtain ⟨flight, -, rfl⟩ := Option.map_eq_some_iff.mp done
      exact ⟨node, registered, named, healthy⟩
  | register other =>
      obtain ⟨-, same⟩ := Option.ite_none_right_eq_some.mp done
      cases same
      exact ⟨node, List.mem_append_left _ registered, named, healthy⟩
  | operator other status =>
      cases done
      refine ⟨_, List.mem_map_of_mem registered, ?_⟩
      by_cases here : node.id = other
      · rw [if_pos here]
        refine ⟨named, kept status ?_⟩
        rw [← named, here]
      · rw [if_neg here]
        exact ⟨named, healthy⟩

/-- A read of one of the rows that comes in now is the row's block. -/
theorem environment_told {event : Event} (done : environment platform before event = some after)
    (may : Tended fileId good before (.env event)) (stays : Stays platform fileId good base before)
    {index : Nat} {flight : Flight Tid} {response : HttpResponse} (late : base ≤ index)
    (found : after.flights[index]? = some flight) (answered : flight.state = .answered response)
    {row : Shard} (member : row ∈ good) (node : flight.node = row.nodeId)
    (request : flight.request = .get row.id) :
    ∃ block, getShard (some response) = .ok block ∧
      platform.sha256Hex block = row.checksumSha256 := by
  obtain ⟨old, there, follows⟩ := environment_flight event done found
  have same := follows.sent
  simp only [sent, Prod.mk.injEq] at same
  rcases follows.state with still | waiting
  · exact stays.told index old response late there (still.symm.trans answered) row member
      (same.2.1.symm.trans node) (same.2.2.symm.trans request)
  · obtain ⟨pending, carried | wrong⟩ := answered_now done there waiting found answered
    · subst carried
      have asked : old.request = .get row.id := same.2.2.symm.trans request
      obtain ⟨data, held, checksum⟩ := stays.intact row member
      have changed := execute_answer row.id there (by rw [asked]; rfl) found
      rw [changed, asked, same.2.1.symm.trans node, held] at answered
      cases answered
      exact ⟨data, by simp [serve, getShard], checksum⟩
    · subst wrong
      exact absurd (same.2.1.symm.trans node) (may old pending row member)

theorem environment_stays {event : Event} (done : environment platform before event = some after)
    (may : Tended fileId good before (.env event))
    (stays : Stays platform fileId good base before) : Stays platform fileId good base after := by
  have undisturbed := environment_undisturbed event done
  constructor
  case standing => rw [undisturbed.files]; exact stays.standing
  case rows =>
    unfold Db.shardsOf
    rw [undisturbed.shards]
    exact stays.rows
  case intact =>
    intro row member
    obtain ⟨data, held, checksum⟩ := stays.intact row member
    refine ⟨data, object_kept done held ?_ ?_, checksum⟩
    · rintro entry rfl
      exact may row member ⟨rfl, rfl⟩
    · exact fun flight inside pending node => stays.spared flight inside pending row member node
  case distinct => exact undisturbed.nodes_nodup stays.distinct
  case up =>
    intro row member
    apply environment_up (stays.up row member) ?_ done
    rintro status rfl
    exact may row member rfl
  case length => rw [drifts_length (environment_drifts event done)]; exact stays.length
  case spared =>
    intro flight inside pending row member node delete
    obtain ⟨index, bound, found⟩ := List.mem_iff_getElem.mp inside
    obtain ⟨old, there, follows⟩ := environment_flight event done
      (List.getElem?_eq_some_iff.mpr ⟨bound, found⟩)
    have same := follows.sent
    simp only [sent, Prod.mk.injEq] at same
    have waiting : old.state = .pending := by
      rcases follows.state with still | waiting
      · exact still.symm.trans pending
      · exact waiting
    exact stays.spared old (List.mem_of_getElem? there) waiting row member
      (same.2.1.symm.trans node) (same.2.2.symm.trans delete)
  case told =>
    intro index flight response late found answered row member node request
    exact environment_told done may stays late found answered member node request

/-- A thread's step that leaves the rows and the nodes alone and deletes none of the objects. -/
theorem exec_stays {thread : Tid} {request : Op} {answer : Res request}
    (done : exec thread before request answer = some after)
    (standing : ∃ file ∈ after.db.files, file.id = fileId ∧ file.status ≠ .deleted)
    (rows : ∀ row ∈ good, row ∈ after.db.shardsOf fileId)
    (nodes : after.db.nodes = before.db.nodes)
    (spares : ∀ one ∈ sends request, ∀ row ∈ good, one.2 ≠ .delete row.id)
    (stays : Stays platform fileId good base before) : Stays platform fileId good base after := by
  constructor
  case standing => exact standing
  case rows => exact rows
  case intact =>
    intro row member
    obtain ⟨data, held, checksum⟩ := stays.intact row member
    exact ⟨data, exec_objects done ▸ held, checksum⟩
  case distinct => rw [nodes]; exact stays.distinct
  case up =>
    unfold Up
    rw [nodes]
    exact stays.up
  case length =>
    have grown := congrArg List.length (exec_wire done)
    simp only [wire, List.length_map, List.length_append] at grown
    exact stays.length.trans (by omega)
  case spared =>
    intro flight inside pending row member node delete
    obtain ⟨index, bound, found⟩ := List.mem_iff_getElem.mp inside
    rcases exec_flight done (List.getElem?_eq_some_iff.mpr ⟨bound, found⟩) with
      ⟨old, there, told⟩ | ⟨-, one, launched, rfl⟩
    · have same := told.sent
      simp only [sent, Prod.mk.injEq] at same
      exact stays.spared old (List.mem_of_getElem? there) (told.state.symm.trans pending) row member
        (same.2.1.symm.trans node) (same.2.2.symm.trans delete)
    · exact spares one launched row member delete
  case told =>
    intro index flight response late found answered row member node asked
    rcases exec_flight done found with ⟨old, there, told⟩ | ⟨-, one, -, rfl⟩
    · have same := told.sent
      simp only [sent, Prod.mk.injEq] at same
      exact stays.told index old response late there (told.state.symm.trans answered) row member
        (same.2.1.symm.trans node) (same.2.2.symm.trans asked)
    · cases answered

theorem api_stays {number : Nat} {request : Op} {answer : Res request} (wf : WellFormed before)
    (done : exec (.api number) before request answer = some after)
    (life : Life (.api number) before after)
    (may : Tended fileId good before (.act (.api number) request answer))
    (ordinary : Ordinary (.act (.api number) request answer))
    (stays : Stays platform fileId good base before) : Stays platform fileId good base after := by
  have nodes := NodeHealth.exec_undisturbed done ordinary
  cases request with
  | commit writes =>
      obtain ⟨standing, rows⟩ := stranger_rows wf done life may stays.standing
      refine exec_stays done standing ?_ nodes (by simp [sends]) stays
      rw [rows]
      exact stays.rows
  | send requests =>
      have db := exec_db rfl done
      refine exec_stays done ?_ ?_ nodes may stays
      · rw [db]; exact stays.standing
      · rw [db]; exact stays.rows
  | _ =>
      have db := exec_db rfl done
      refine exec_stays done ?_ ?_ nodes (by simp [sends]) stays
      · rw [db]; exact stays.standing
      · rw [db]; exact stays.rows

/-- What a repair does to the rest: it moves other rows, and deletes other objects. -/
def Sparing (good : List Shard) : Op → Prop
  | .commit writes => ∃ old new node, writes = [.repoint old new node] ∧ ∀ row ∈ good, row.id ≠ old
  | .send requests => ∀ one ∈ requests, ∀ row ∈ good, one.2 ≠ .delete row.id
  | _ => True

theorem worker_stays {request : Op} {answer : Res request}
    (done : exec .worker before request answer = some after) (sparing : Sparing good request)
    (stays : Stays platform fileId good base before) : Stays platform fileId good base after := by
  cases request with
  | commit writes =>
      obtain ⟨old, new, node, rfl, others⟩ := sparing
      have moves := repoint_done done
      refine exec_stays done ?_ ?_ ?_ (by simp [sends]) stays
      · rw [moves]; exact stays.standing
      · intro row member
        rw [moves]
        change row ∈ (moved before old new node).db.shardsOf fileId
        rw [shardsOf_repoint rfl]
        exact List.mem_map.mpr ⟨row, stays.rows row member, if_neg (others row member)⟩
      · rw [moves]
        rfl
  | send requests =>
      have db := exec_db rfl done
      refine exec_stays done ?_ ?_ (by rw [db]) sparing stays
      · rw [db]; exact stays.standing
      · rw [db]; exact stays.rows
  | _ =>
      have db := exec_db rfl done
      refine exec_stays done ?_ ?_ (by rw [db]) (by simp [sends]) stays
      · rw [db]; exact stays.standing
      · rw [db]; exact stays.rows

end Steps

abbrev tendedLayer (platform : Platform) (fileId : Uuid) (good : List Shard) (base : Nat) :
    Layer where
  inv := Stays platform fileId good base
  move := fun _ before after => Stays platform fileId good base after ∧ Lasting before after
  drift := fun before after => Stays platform fileId good base after ∧ Lasting before after
  allowed := fun shared label => Tended fileId good shared label ∧ Ordinary label

section Programs
variable {platform : Platform} {fileId : Uuid} {good : List Shard} {base : Nat}
  {post : Tid → Job → Outcome → Shared → Prop} {Out : Type} {result : Out → Shared → Prop}
  {state : Shared}

theorem tended_sound (platform : Platform) (fileId : Uuid) (good : List Shard) (base : Nat) :
    Sound platform (tendedLayer platform fileId good base) where
  move_inv := fun _ _ _ _ _ _ move => move.1
  drift_inv := fun _ _ _ _ _ drift => drift.1
  drifts := fun _ event _ stays done may => ⟨environment_stays done may.1 stays,
    drifts_lasting (environment_drifts event done)⟩

abbrev Tends (platform : Platform) (fileId : Uuid) (good : List Shard) (base : Nat)
    (post : Tid → Job → Outcome → Shared → Prop) (thread : Tid) (result : Out → Shared → Prop)
    (prog : Async Out) (state : Shared) : Prop :=
  Safe (service platform) ((tendedLayer platform fileId good base).contract post) thread result prog
    state

theorem api_tends (number : Nat) (done : ∀ out later, result out later) (prog : Async Out) :
    Tends platform fileId good base post (.api number) result prog state := by
  induction prog generalizing state with
  | ret out => exact fun later _ _ => done out later
  | op asked next ih =>
      apply layer_op (stable_const True) trivial
      intro before answer after wf stays _ taken life may
      exact ⟨⟨api_stays wf taken life may.1 may.2 stays, exec_lasting taken⟩, ih answer⟩

theorem sparing_tends (done : ∀ out later, result out later) {prog : Async Out}
    (only : prog.Only (Sparing good)) :
    Tends platform fileId good base post .worker result prog state := by
  induction prog generalizing state with
  | ret out => exact fun later _ _ => done out later
  | op asked next ih =>
      apply layer_op (stable_const True) trivial
      intro before answer after wf stays _ taken _ _
      exact ⟨⟨worker_stays taken only.1 stays, exec_lasting taken⟩, ih answer (only.2 answer)⟩

theorem gets_sparing (batch : List (Shard × StorageNode)) :
    (gather (getRequests batch)).Only (Sparing good) := by
  refine ⟨?_, fun _ => ⟨trivial, fun _ => trivial⟩⟩
  intro one member row _ delete
  obtain ⟨other, -, rfl⟩ := List.mem_map.mp member
  cases delete

theorem fetchRounds_sparing (k fuel : Nat) (collected : Blocks)
    (remaining : List (Shard × StorageNode)) :
    (fetchRounds platform k fuel collected remaining).Only (Sparing good) := by
  induction fuel generalizing collected remaining with
  | zero => trivial
  | succ fuel ih =>
      unfold fetchRounds
      split
      · exact Prog.only_bind (gets_sparing _) fun replies => ih _ _
      · trivial

/-- The loop touches the rows it is given. -/
theorem repairShards_sparing (items : List ((Shard × StorageNode) × Bytes × StorageNode))
    (others : ∀ item ∈ items, ∀ row ∈ good, row.id ≠ item.1.1.id) :
    (repairShards platform items).Only (Sparing good) := by
  induction items with
  | nil => trivial
  | cons item rest ih =>
      obtain ⟨⟨shard, oldNode⟩, block, target⟩ := item
      have apart := others _ List.mem_cons_self
      have later := ih fun item member => others item (List.mem_cons_of_mem _ member)
      unfold repairShards
      split
      · exact later
      refine ⟨trivial, fun newId => ?_⟩
      have puts : (call target.id (.put newId block)).Only (Sparing good) := by
        refine ⟨?_, fun _ => ⟨trivial, fun _ => trivial⟩⟩
        rintro one member row - delete
        rw [List.mem_singleton.mp member] at delete
        cases delete
      apply Prog.only_bind puts
      intro reply
      split
      · refine ⟨⟨shard.id, newId, target.id, rfl, apart⟩, fun _ => ?_⟩
        have deletes : (call oldNode.id (.delete shard.id)).Only (Sparing good) := by
          refine ⟨?_, fun _ => ⟨trivial, fun _ => trivial⟩⟩
          rintro one member row inside delete
          rw [List.mem_singleton.mp member] at delete
          exact apart row inside (NodeRequest.delete.inj delete).symm
        apply Prog.only_bind deletes
        exact fun _ => Prog.only_bind later fun _ => trivial
      · exact later

theorem repairFile_sparing (other : Uuid) (bad : List Uuid)
    (unlisted : ∀ row ∈ good, row.id ∉ bad) :
    (repairFile platform other bad).Only (Sparing good) := by
  have reads : (getFile other).Only (Sparing good) := ⟨trivial, fun _ => trivial⟩
  apply Prog.only_bind reads
  intro found
  cases found with
  | none => trivial
  | some file =>
      dsimp only [Prog.pure_eq, Prog.bind_eq]
      split
      · trivial
      refine ⟨trivial, fun placed => ⟨trivial, fun rows => ?_⟩⟩
      apply Prog.only_bind (fetchRounds_sparing _ _ _ _)
      intro blocks
      split
      · trivial
      refine ⟨trivial, fun healthy => ⟨trivial, fun targets => ?_⟩⟩
      split
      · trivial
      · apply Prog.only_bind (repairShards_sparing _ ?_)
        · exact fun _ => trivial
        · intro item member row inside same
          have due := (List.of_mem_zip member).1
          obtain ⟨-, listed⟩ := List.mem_filter.mp due
          rw [← same] at listed
          exact unlisted row inside (of_decide_eq_true listed)

theorem repairFiles_sparing (groups : ByFile)
    (unlisted : ∀ group ∈ groups, ∀ row ∈ good, row.id ∉ group.2) :
    (repairFiles platform groups).Only (Sparing good) := by
  induction groups with
  | nil => trivial
  | cons group rest ih =>
      apply Prog.only_bind (repairFile_sparing _ _ (unlisted group List.mem_cons_self))
      intro outcome
      cases outcome with
      | error error => trivial
      | ok repaired =>
          apply Prog.only_bind (ih fun other member => unlisted other
            (List.mem_cons_of_mem _ member))
          intro others
          cases others <;> trivial

/-- The rows stay on healthy nodes, so the pass does not list them. -/
theorem selected_unlisted {time grace : Nat} {rows : List (Shard × StorageNode)} {shared : Shared}
    (wf : WellFormed shared) (stays : Stays platform fileId good base shared)
    (selected : rows.Perm (shared.db.placed.filter fun row =>
      ofAvailable shared.db row.1 && lost time grace row.2)) :
    ∀ group ∈ grouped rows, ∀ row ∈ good, row.id ∉ group.2 := by
  intro group member row inside listed
  obtain ⟨found, among, -, sameId⟩ := grouped_noted.mp ⟨group, member, rfl, listed⟩
  obtain ⟨joined, chosen⟩ := List.mem_filter.mp (selected.mem_iff.mp among)
  obtain ⟨there, registered, onNode⟩ := placed_shard joined
  have stands := (List.mem_filter.mp (stays.rows row inside)).1
  rw [List.inj_on_of_nodup_map wf.shards_nodup there stands sameId] at onNode
  obtain ⟨node, healthy, named, up⟩ := stays.up row inside
  have one := List.inj_on_of_nodup_map wf.nodes_nodup registered healthy (onNode.trans named.symm)
  simp [lost, one, up] at chosen

theorem pass_tends (settings : Settings) {result : Outcome → Shared → Prop}
    (done : ∀ out later, result out later) :
    Tends platform fileId good base post .worker result
      (program platform (.repairLostShards settings)) state := by
  apply safe_map
  apply layer_op (stable_const True) trivial
  intro before time after _ stays _ taken _ _
  refine ⟨⟨worker_stays taken trivial stays, exec_lasting taken⟩, ?_⟩
  apply layer_op (stable_const True) trivial
  intro before rows after wf stays _ taken _ _
  refine ⟨⟨worker_stays taken trivial stays, exec_lasting taken⟩, ?_⟩
  obtain ⟨selected, -⟩ := Option.ite_none_right_eq_some.mp taken
  exact sparing_tends (fun out later => done _ later)
    (repairFiles_sparing _ (selected_unlisted wf stays selected))

end Programs

/-! ### Readers -/

/-- The rows that are not on these nodes. -/
def staying (db : Db) (fileId : Uuid) (retired : List Uuid) : List Shard :=
  (db.shardsOf fileId).filter (·.nodeId ∉ retired)

section Readers
variable {platform : Platform} {fileId : Uuid} {good : List Shard} {base request : Nat}

theorem tended_shelter :
    Shelter platform (tendedLayer platform fileId good base) fileId request base good where
  lasts := ⟨fun _ _ drift => drift.2, fun _ _ _ move => move.2⟩
  late := fun _ stays => stays.length
  acts := fun _ _ _ _ wf stays done life may =>
    ⟨api_stays wf done life may.1 may.2 stays, exec_lasting done⟩
  stands := fun _ stays => stays.rows
  usable := by
    intro shared _ _ stays _ row member node registered named
    obtain ⟨other, there, same, healthy⟩ := stays.up row member
    rw [List.inj_on_of_nodup_map stays.distinct registered there (named.trans same.symm), healthy]
    decide
  heard := by
    intro before handles replies after stays done may position handle reply flight late at_handle
      got found row member node asked
    have replied := may.1 position handle flight at_handle found ⟨row, member, node⟩
    cases reply with
    | none => exact absurd got replied
    | some response =>
        obtain ⟨flights, told, -⟩ := Option.map_eq_some_iff.mp done
        obtain ⟨answered, there, state⟩ :=
          (awaitReplies_heard told).2 position handle response at_handle got
        obtain rfl := Option.some.inj (there.symm.trans found)
        exact stays.told handle _ response late found state row member node asked

end Readers

section Runs
variable {platform : Platform} {clock : Nat} {earlier labels : List ServiceLabel}
  {opening config : ServiceConfig} {file : File} {retired : List Uuid}

theorem start_stays (reached : Run (Step (service platform)) (deployed clock) earlier opening)
    (retiring : Retiring platform opening.shared file retired) :
    Stays platform file.id (staying opening.shared.db file.id retired)
      opening.shared.flights.length opening.shared := by
  have rows : ∀ row ∈ staying opening.shared.db file.id retired,
      row ∈ opening.shared.db.shardsOf file.id := fun row member => (List.mem_filter.mp member).1
  constructor
  case standing => exact ⟨file, retiring.present, rfl, by simp [retiring.available]⟩
  case rows => exact rows
  case intact => exact fun row member => retiring.intact row (rows row member)
  case distinct => exact (service_safe reached).inv.nodes_nodup
  case up =>
    intro row member
    exact retiring.staying row (rows row member) (of_decide_eq_true (List.mem_filter.mp member).2)
  case length => exact Nat.le_refl _
  case spared =>
    intro flight inside pending row member
    exact retiring.spared flight inside pending row (rows row member)
  case told =>
    intro index flight response late found
    rw [List.getElem?_eq_none late] at found
    cases found

/-- At least `k` rows stay. -/
theorem staying_enough (reached : Run (Step (service platform)) (deployed clock) earlier opening)
    (retiring : Retiring platform opening.shared file retired)
    (few : (displaced opening.shared.db file.id retired).length ≤ file.parityShards) :
    file.dataShards ≤ (staying opening.shared.db file.id retired).length := by
  have total : (opening.shared.db.shardsOf file.id).length =
      file.dataShards + file.parityShards := by
    apply rows_count (service_safe reached).inv retiring.present
    rw [retiring.available]
    decide
  have split := (opening.shared.db.shardsOf file.id).length_eq_length_filter_add
    fun row => row.nodeId ∈ retired
  unfold displaced at few
  unfold staying
  simp only [decide_not] at split ⊢
  omega

theorem step_ordinary (reached : Run (Step (service platform)) (deployed clock) earlier opening)
    {label : ServiceLabel} (taken : Step (service platform) opening label config) :
    Ordinary label := by
  cases taken with
  | @act thread job request next answer shared at_op done =>
      cases thread with
      | worker => trivial
      | api number => exact (NodeHealth.api_within reached (by simp) at_op).1
  | _ => trivial

/-- Steps that tend to the file's staying rows. -/
abbrev TendedStep (platform : Platform) (file : File) (retired : List Uuid)
    (opening : ServiceConfig) : ServiceConfig → ServiceLabel → ServiceConfig → Prop :=
  Guarded (fun config label => Tended file.id (staying opening.shared.db file.id retired)
    config.shared label) (Step (service platform))

abbrev posts (_ : Tid) (_ : Job) (_ : Outcome) (_ : Shared) : Prop := True

theorem tended_contract
    (reached : Run (Step (service platform)) (deployed clock) earlier opening)
    {good : List Shard} {fileId : Uuid} {base : Nat}
    (run : Run (Guarded (fun config label => Tended fileId good config.shared label)
      (Step (service platform))) opening labels config) :
    Run (Allowed (service platform) ((tendedLayer platform fileId good base).contract posts))
      opening labels config :=
  layer_contract reached
    (run_also (fun _ _ _ _ there taken => step_ordinary there taken) reached run)

theorem tended_begins {good : List Shard} {fileId : Uuid} {base : Nat} (thread : Tid) (job : Job)
    (shared : Shared) (may : Tended fileId good shared (.start thread job)) :
    Tends platform fileId good base posts thread (posts thread job) (program platform job)
      shared := by
  cases thread with
  | worker =>
      obtain ⟨settings, rfl⟩ := may rfl
      exact pass_tends settings fun _ _ => trivial
  | api number => exact api_tends number (fun _ _ => trivial) _

theorem tended_safe (reached : Run (Step (service platform)) (deployed clock) earlier opening)
    (resting : ∀ job rest, opening.threads .worker ≠ .running job rest)
    (retiring : Retiring platform opening.shared file retired)
    (run : Run (TendedStep platform file retired opening) opening labels config) :
    AllSafe (service platform) ((tendedLayer platform file.id
      (staying opening.shared.db file.id retired) opening.shared.flights.length).contract posts)
        config := by
  refine run_safe (layer_composes (tended_sound platform _ _ _))
    (fun thread job shared _ _ may => tended_begins thread job shared may.2.1)
    ⟨⟨(service_safe reached).inv, start_stays reached retiring⟩, fun thread job rest running => ?_⟩
    (tended_contract reached run)
  cases thread with
  | worker => exact absurd running (resting job rest)
  | api number => exact api_tends number (fun _ _ => trivial) rest

/-- A read of a copy of the file's row that begins among these steps. -/
def Reads (platform : Platform) (file : File) (retired : List Uuid) (opening : ServiceConfig)
    (request : Nat) (out : Except FilesError Bytes) : Prop :=
  ∃ (first second : List ServiceLabel) (middle config : ServiceConfig) (job : Job) (copy : File)
    (next : Except FilesError Bytes → Async Outcome),
    Run (TendedStep platform file retired opening) opening first middle ∧
    Run (TendedStep platform file retired opening) middle second config ∧ sameFile copy file ∧
    middle.threads (.api request) = .running job ((readFile platform copy).bind next) ∧
    Advances (.api request) (readFile platform copy) second (.ret out)

/-- The rows as they stand, and nodes that answer from their disks. -/
def onDisk (platform : Platform) (shared : Shared) : World where
  rows condition := shared.db.placed.filter fun row => condition shared.db row.1 row.2
  reply node request :=
    some (serve platform (request.shard.bind (shared.objects node)) request).1

/-- Enough intact rows on healthy nodes: a read that goes on undisturbed brings the data. -/
theorem stays_settles {shared : Shared} {good : List Shard} {base : Nat} {data : Bytes}
    {copy : File} (distinct : Function.Injective platform.sha256Hex)
    (mds : Mds platform.zfec file.dataShards (file.dataShards + file.parityShards))
    (positive : 1 ≤ file.dataShards) (size : file.sizeBytes = data.length)
    (checksum : file.checksumSha256 = platform.sha256Hex data) (wf : WellFormed shared)
    (encodes : ∀ rows : List (Shard × StorageNode),
      (rows.map Prod.fst).Subperm (shared.db.shardsOf file.id) →
        Encodes platform data file.dataShards file.parityShards rows)
    (stays : Stays platform file.id good base shared) (nodup : good.Nodup)
    (enough : file.dataShards ≤ good.length) (same : sameFile copy file) :
    Settles (onDisk platform shared) (readFile platform copy) (.ok data) := by
  obtain ⟨named, -, -, size', checksum', k, m, -⟩ := same
  have selected : ((onDisk platform shared).rows (readable copy)).Perm
      (shared.db.placed.filter fun row => readable copy shared.db row.1 row.2) := List.Perm.refl _
  have sub := (selected.map Prod.fst).subperm.trans
    (readable_sublist wf.nodes_nodup copy).subperm
  rw [named] at sub
  have real := encodes _ sub
  refine readFile_settles distinct mds positive copy k m (size'.trans size)
    (checksum'.trans checksum) real (enough.trans ?_)
  have counted : good.length ≤
      ((onDisk platform shared).rows (readable copy)).countP fun row => row.1 ∈ good := by
    apply among_counted nodup
    intro row member
    obtain ⟨node, -, chosen⟩ := standing_selected wf selected (named ▸ stays.rows row member) <| by
      intro node registered onNode
      obtain ⟨other, there, sameId, healthy⟩ := stays.up row member
      rw [List.inj_on_of_nodup_map stays.distinct registered there (onNode.trans sameId.symm),
        healthy]
      decide
    exact List.mem_map.mpr ⟨(row, node), chosen, rfl⟩
  -- A row it relies on is answered with its block.
  apply counted.trans
  apply List.countP_mono_left
  intro row member isGood
  obtain ⟨block, held, right⟩ := stays.intact row.1 (of_decide_eq_true isGood)
  have joined := (placed_shard (List.mem_filter.mp member).1).2.2
  have block_eq := distinct (right.trans (real.checksum row member))
  have got : getShard ((onDisk platform shared).reply row.2.id (.get row.1.id)) = .ok block := by
    simp [onDisk, NodeRequest.shard, joined, held, serve, getShard]
  simp [intact, got, block_eq]

theorem retiring_reads (distinct : Function.Injective platform.sha256Hex)
    (reached : Run (Step (service platform)) (deployed clock) earlier opening)
    (resting : ∀ job rest, opening.threads .worker ≠ .running job rest)
    (retiring : Retiring platform opening.shared file retired)
    (few : (displaced opening.shared.db file.id retired).length ≤ file.parityShards)
    (mds : Mds platform.zfec file.dataShards (file.dataShards + file.parityShards)) :
    ∃ data, file.checksumSha256 = platform.sha256Hex data ∧
      (∀ request out, Reads platform file retired opening request out → out = .ok data) ∧
      ∀ labels config, Run (TendedStep platform file retired opening) opening labels config →
        ∀ copy, sameFile copy file →
          Settles (onDisk platform config.shared) (readFile platform copy) (.ok data) := by
  obtain ⟨data, thread, original, shards, -, size, checksum, uploaded, codes⟩ :=
    file_encoded reached retiring.present
  have positive : 1 ≤ file.dataShards :=
    (of_decide_eq_true (run_checked reached file retiring.present)).2.1
  have enough := staying_enough reached retiring few
  have nodup : (staying opening.shared.db file.id retired).Nodup :=
    ((List.Nodup.of_map _ (service_safe reached).inv.shards_nodup).sublist
      (List.filter_sublist.trans List.filter_sublist))
  have later : ∀ {labels config},
      Run (TendedStep platform file retired opening) opening labels config →
        Uploaded config.shared thread original shards := fun run =>
    run_life (fun _ _ _ _ life => life_log life) reached (guarded_run run) uploaded
  refine ⟨data, checksum, ?_, ?_⟩
  · rintro request out ⟨first, second, middle, config, job, copy, next, before, run, same, running,
      advances⟩
    have all := tended_safe reached resting retiring before
    have there := run_append reached (guarded_run before)
    have shelter : Shelter platform (tendedLayer platform file.id
        (staying opening.shared.db file.id retired) opening.shared.flights.length) copy.id request
        opening.shared.flights.length (staying opening.shared.db file.id retired) := by
      rw [same.1]
      exact tended_shelter
    have safe : SafeReader platform (tendedLayer platform file.id
        (staying opening.shared.db file.id retired) opening.shared.flights.length) posts request
        (fun out _ => out = .ok data) (readFile platform copy) middle.shared :=
      copy_reader shelter distinct mds positive size checksum codes same (later before) nodup enough
    obtain ⟨-, ended⟩ := advances_safe (layer_composes (tended_sound platform _ _ _))
      (fun thread job shared _ _ may => tended_begins thread job shared may.2.1) all running safe
      (tended_contract there run) advances
    exact ended config.shared .refl (run_safe (layer_composes (tended_sound platform _ _ _))
      (fun thread job shared _ _ may => tended_begins thread job shared may.2.1) all
      (tended_contract there run)).inv
  · intro labels config run copy same
    have all := tended_safe reached resting retiring run
    exact stays_settles distinct mds positive size checksum all.inv.1
      (codes config.shared all.inv.1 (later run)) all.inv.2 nodup enough same

/-- With at most `m` of the file's shards on the retired nodes it is read back all the
time, and a pass that the nodes answer takes the last of them off those that the
operator has decommissioned. -/
theorem retirement_preserves (platform : Platform)
    (distinct : Function.Injective platform.sha256Hex) (clock : Nat)
    (earlier : List ServiceLabel) (opening : ServiceConfig)
    (reached : Run (Step (service platform)) (deployed clock) earlier opening)
    (resting : ∀ job rest, opening.threads .worker ≠ .running job rest) (file : File)
    (retired : List Uuid) (retiring : Retiring platform opening.shared file retired)
    (few : (displaced opening.shared.db file.id retired).length ≤ file.parityShards)
    (mds : ∀ current ∈ opening.shared.db.files, current.status = .available →
      Mds platform.zfec current.dataShards (current.dataShards + current.parityShards)) :
    (∃ data, file.checksumSha256 = platform.sha256Hex data ∧
      (∀ request out, Reads platform file retired opening request out → out = .ok data) ∧
      ∀ labels config, Run (TendedStep platform file retired opening) opening labels config →
        ∀ copy, sameFile copy file →
          Settles (onDisk platform config.shared) (readFile platform copy) (.ok data)) ∧
    (Tidy opening.shared →
      (displaced opening.shared.db file.id retired).length ≤
        (spares opening.shared.db file.id).length →
      ∀ settings begun,
      Step (service platform) opening (.start .worker (.repairLostShards settings)) begun →
      ∀ labels config, Run (Served platform opening) begun labels config →
        (∀ out last, Step (service platform) config
            (.finish .worker (.repairLostShards settings) out) last →
          (∃ count, out = .returned count) ∧ Vacated platform file last.shared) ∧
        ((∃ out, .finish .worker (.repairLostShards settings) out ∈ labels) ∨
          (opening.shared.issued.length + opening.shared.db.shards.length ≤ 2 ^ 128 →
            ∃ more last count done, Run (Served platform opening) config more last ∧
              Step (service platform) last
                (.finish .worker (.repairLostShards settings) (.returned count)) done))) := by
  constructor
  · exact retiring_reads distinct reached resting retiring few
      (mds file retiring.present retiring.available)
  · intro tidy spare settings begun started labels config run
    have moves : Moves platform file retired settings opening begun :=
      ⟨⟨⟨clock, earlier, reached⟩, tidy, started⟩, retiring, few, spare, mds⟩
    constructor
    · exact fun out last finish => pass_vacates distinct moves run finish
    · by_cases finished : ∃ out, .finish .worker (.repairLostShards settings) out ∈ labels
      · exact Or.inl finished
      · right
        intro enough
        exact (pass_returns distinct moves enough run).resolve_left finished

end Runs

/-! ### Small fleets -/

/-- Some healthy nodes and the small upload; then the operator decommissions some. -/
def retirements (nodes retired : List Uuid) : List ServiceMove :=
  nodes.map (fun id => .env (.register (healthyNode id))) ++
  .start (.api 0) (.upload smallUpload) :: prompts (.api 0) 8 ++ delivers [0, 1] ++
  prompts (.api 0) 4 ++ [.finish (.api 0)] ++
  retired.map fun id => .env (.operator id .decommissioned)

theorem one_retired_driven : (drive (service plain) (fun _ label => lossy label) (deployed 0)
    (retirements [1, 2, 3] [1])).isSome = true := by
  decide +kernel

theorem both_retired_driven : (drive (service plain) (fun _ label => lossy label) (deployed 0)
    (retirements [1, 2, 3, 4] [1, 2])).isSome = true := by
  decide +kernel

def oneRetired : ServiceConfig :=
  ((drive (service plain) (fun _ label => lossy label) (deployed 0)
    (retirements [1, 2, 3] [1])).get one_retired_driven).2

def bothRetired : ServiceConfig :=
  ((drive (service plain) (fun _ label => lossy label) (deployed 0)
    (retirements [1, 2, 3, 4] [1, 2])).get both_retired_driven).2

def vacating (config : ServiceConfig) : ServiceConfig :=
  config.set .worker (.running (.repairLostShards smallSettings)
    (program plain (.repairLostShards smallSettings)))

def retireChecks (retired : List Uuid) (config : ServiceConfig) : Bool :=
  (match config.threads .worker with
    | .fresh => true
    | _ => false) &&
  decide (∀ node ∈ config.shared.db.nodes,
    node.status = if node.id ∈ retired then .decommissioned else .healthy) &&
  decide (∀ flight ∈ config.shared.flights, flight.state ≠ .pending) &&
  (config.shared.db.shardsOf 1).all (whole plain config.shared)

/-- What the checks say of a fleet in which some nodes are retired. -/
structure Prepared (config : ServiceConfig) (file : File) (retired : List Uuid) : Prop where
  reached : ∃ labels, Run (Step (service plain)) (deployed 0) labels config
  resting : ∀ job rest, config.threads .worker ≠ .running job rest
  retiring : Retiring plain config.shared file retired
  tidy : Tidy config.shared
  started : Step (service plain) config (.start .worker (.repairLostShards smallSettings))
    (vacating config)

theorem retirements_prepared {nodes retired : List Uuid} {labels : List ServiceLabel}
    {config : ServiceConfig}
    (driven : drive (service plain) (fun _ label => lossy label) (deployed 0)
      (retirements nodes retired) = some (labels, config))
    (checks : retireChecks retired config = true) {file : File}
    (present : file ∈ config.shared.db.files) (named : file.id = 1)
    (available : file.status = .available) : Prepared config file retired := by
  have run := drive_run (service plain) _ (deployed 0) _ _ _ driven
  have reached := guarded_run run
  unfold retireChecks at checks
  rw [Bool.and_eq_true, Bool.and_eq_true, Bool.and_eq_true] at checks
  obtain ⟨⟨⟨idle, statuses⟩, settled⟩, sound⟩ := checks
  have free : config.threads .worker = .fresh := by
    split at idle
    · rename_i same
      exact same
    · cases idle
  have status := of_decide_eq_true statuses
  refine ⟨⟨labels, reached⟩, ?_, ⟨present, available, ?_, ?_, ?_⟩, ?_, ?_⟩
  · intro job rest running
    rw [free] at running
    cases running
  · intro row member
    rw [named] at member
    exact whole_intact (List.all_eq_true.mp sound row member)
  · exact fun flight member pending => absurd pending (of_decide_eq_true settled flight member)
  · intro row member stays
    obtain ⟨node, registered, onNode⟩ :=
      List.mem_map.mp ((service_safe reached).inv.hosted row (List.mem_filter.mp member).1)
    have up := status node registered
    rw [onNode, if_neg stays] at up
    exact ⟨node, registered, onNode, up⟩
  · exact run_tidy (run_mono (fun _ _ _ taken => ⟨taken.1, lossy_unplanted taken.2⟩) run)
  · apply Step.start ?_ rfl
    rw [free]
    trivial

theorem retirement_preserves_one : ∃ file data begun labels config last count,
    Retiring plain oneRetired.shared file [1] ∧
    (displaced oneRetired.shared.db file.id [1]).length = file.parityShards ∧
    file.checksumSha256 = plain.sha256Hex data ∧
    (∀ request out, Reads plain file [1] oneRetired request out → out = .ok data) ∧
    Settles (onDisk plain oneRetired.shared) (readFile plain file) (.ok data) ∧
    Step (service plain) oneRetired (.start .worker (.repairLostShards smallSettings)) begun ∧
    Run (Served plain oneRetired) begun labels config ∧
    Step (service plain) config
      (.finish .worker (.repairLostShards smallSettings) (.returned count)) last ∧
    Vacated plain file last.shared := by
  obtain ⟨file, present, named, available, m⟩ : ∃ file ∈ oneRetired.shared.db.files,
      file.id = 1 ∧ file.status = .available ∧ file.parityShards = 1 := by
    decide +kernel
  have prepared : Prepared oneRetired file [1] :=
    retirements_prepared (Option.some_get one_retired_driven).symm (by decide +kernel) present named
      available
  obtain ⟨earlier, reached⟩ := prepared.reached
  have shards : ∀ current ∈ oneRetired.shared.db.files, current.dataShards = 1 := by
    decide +kernel
  have one : (displaced oneRetired.shared.db file.id [1]).length = file.parityShards := by
    rw [named, m]
    decide +kernel
  have spare : (displaced oneRetired.shared.db file.id [1]).length ≤
      (spares oneRetired.shared.db file.id).length := by
    rw [named]
    decide +kernel
  obtain ⟨⟨data, checksum, reads, settles⟩, passes⟩ := retirement_preserves plain plain_sha256Hex 0
    earlier oneRetired reached prepared.resting file [1] prepared.retiring one.le
    (fun current among _ => by rw [shards current among]; exact replication_mds _)
  have pass := passes prepared.tidy spare smallSettings _ prepared.started
  obtain ⟨-, finished | continues⟩ := pass [] _ .refl
  · obtain ⟨out, member⟩ := finished
    cases member
  · obtain ⟨more, last, count, done, run, finish⟩ := continues (by decide +kernel)
    have vacated := (pass more last run).1 _ _ finish
    exact ⟨file, data, _, more, last, done, count, prepared.retiring, one, checksum, reads,
      settles [] oneRetired .refl file ⟨rfl, rfl, rfl, rfl, rfl, rfl, rfl, rfl⟩, prepared.started,
      run, finish, vacated.2⟩

theorem none_settles {platform : Platform} {shared : Shared} {file : File}
    (positive : 1 ≤ file.dataShards)
    (retired : ∀ row ∈ shared.db.placed, row.2.status = .decommissioned) :
    Settles (onDisk platform shared) (readFile platform file) (.error .fileUnavailable) := by
  have none : (onDisk platform shared).rows (readable file) = [] := by
    apply List.filter_eq_nil_iff.mpr
    intro row member
    simp [readable, retired row member]
  obtain ⟨order, same, candidates⟩ := candidates_settle (onDisk platform shared) file
  rw [none] at same
  obtain rfl := List.perm_nil.mp same
  refine settles_bind candidates (settles_bind (settles_ret []) ?_)
  rw [if_pos (show ([] : Blocks).length < file.dataShards from positive)]
  exact settles_ret _

def gaveUp (config : ServiceConfig) : Bool :=
  (match config.threads .worker with
    | .running (.repairLostShards _) (.ret (.returned count)) => decide (count = 0)
    | _ => false) &&
  (config.shared.db.shardsOf 1).any fun row => config.shared.db.nodes.any fun node =>
    decide (node.id = row.nodeId ∧ node.status = .decommissioned)

/-- All nodes of a file retired, with as many healthy ones to replace them: no node has
failed, but the file cannot be read, and the pass leaves its rows where they are. -/
theorem retirement_unreadable : ∃ file begun labels config last,
    Retiring plain bothRetired.shared file [1, 2] ∧
    (displaced bothRetired.shared.db file.id [1, 2]).length ≤
      (spares bothRetired.shared.db file.id).length ∧ Tidy bothRetired.shared ∧
    Settles (onDisk plain bothRetired.shared) (readFile plain file) (.error .fileUnavailable) ∧
    Step (service plain) bothRetired (.start .worker (.repairLostShards smallSettings)) begun ∧
    Run (Served plain bothRetired) begun labels config ∧
    Step (service plain) config
      (.finish .worker (.repairLostShards smallSettings) (.returned 0)) last ∧
    ∃ row ∈ last.shared.db.shardsOf file.id, ∃ node ∈ last.shared.db.nodes,
      node.id = row.nodeId ∧ node.status = .decommissioned := by
  obtain ⟨file, present, named, available, k⟩ : ∃ file ∈ bothRetired.shared.db.files,
      file.id = 1 ∧ file.status = .available ∧ file.dataShards = 1 := by
    decide +kernel
  have prepared : Prepared bothRetired file [1, 2] :=
    retirements_prepared (Option.some_get both_retired_driven).symm (by decide +kernel) present
      named available
  have spare : (displaced bothRetired.shared.db file.id [1, 2]).length ≤
      (spares bothRetired.shared.db file.id).length := by
    rw [named]
    decide +kernel
  obtain ⟨labels, config, run, ended⟩ := drive_guarded (service plain)
    (fun _ label => answering bothRetired.shared.flights.length label) (vacating bothRetired)
    (prompts .worker 5) (fun _ config => gaveUp config) (by decide +kernel)
  have served : Run (Served plain bothRetired) (vacating bothRetired) labels config :=
    run_mono (fun _ _ _ taken => ⟨taken.1, answering_promptly taken.2⟩) run
  obtain ⟨earlier, reached⟩ := prepared.reached
  have alone : Alone plain (.repairLostShards smallSettings) bothRetired (vacating bothRetired) :=
    ⟨⟨0, earlier, reached⟩, prepared.tidy, prepared.started⟩
  unfold gaveUp at ended
  rw [Bool.and_eq_true] at ended
  obtain ⟨stopped, left⟩ := ended
  obtain ⟨row, member, down⟩ := List.any_eq_true.mp left
  obtain ⟨node, registered, facts⟩ := List.any_eq_true.mp down
  have unread : Settles (onDisk plain bothRetired.shared) (readFile plain file)
      (.error .fileUnavailable) := none_settles k.ge (by decide +kernel)
  refine ⟨file, vacating bothRetired, labels, config, config.set .worker .ended, prepared.retiring,
    spare, prepared.tidy, unread, prepared.started, served, ?_, row,
    named ▸ member, node, registered, of_decide_eq_true facts⟩
  split at stopped
  · rename_i settings count at_ret
    obtain rfl := of_decide_eq_true stopped
    rcases Reliable.alone_running alone served with ⟨out, finished⟩ | ⟨rest, running⟩
    · obtain ⟨-, -, -, -, -, -, ⟨-, may⟩, -⟩ := run_member run finished
      cases may
    · rw [at_ret] at running
      cases running
      exact .finish at_ret
  · cases stopped

end SecureFileSystem.Retirement
