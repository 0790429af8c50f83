import SecureFileSystem.BitRot
import SecureFileSystem.Scrub

/-!
A pass of `repair_lost_shards` on its own: the files that have lost shards are
repaired one after the other, and the repair of one leaves the rows of the others
and their objects alone.
-/

namespace SecureFileSystem.RepairPass

open Base Database Fleet Session LifeCycle Program Transition RelyGuarantee Progress Erasure Files
  SecureFileSystem.Configuration Maintenance Service Interference Stability Conduct Guarantees Wire
  Objects Records Layering Durability Reliable Restoration BitRot
open Scrub (Noted adds_noted adds_distinct)

/-- The shards listed for a file. -/
def owed (groups : ByFile) (fileId : Uuid) : List Uuid :=
  (groups.filter (·.1 = fileId)).flatMap (·.2)

theorem mem_owed {groups : ByFile} {fileId id : Uuid} :
    id ∈ owed groups fileId ↔ Noted groups fileId id := by
  simp [owed, Noted, and_assoc]

theorem owed_other {fileId other : Uuid} {bad : List Uuid} {rest : ByFile}
    (different : other ≠ fileId) : owed ((other, bad) :: rest) fileId = owed rest fileId := by
  simp [owed, different]

theorem owed_last {fileId : Uuid} {groups : ByFile} (absent : fileId ∉ groups.map (·.1)) :
    owed groups fileId = [] := by
  have none : groups.filter (·.1 = fileId) = [] := by
    rw [List.filter_eq_nil_iff]
    rintro group member same
    rw [← of_decide_eq_true same] at absent
    exact absent (List.mem_map_of_mem member)
  rw [owed, none, List.flatMap_nil]

theorem owed_head {fileId : Uuid} {bad : List Uuid} {rest : ByFile}
    (absent : fileId ∉ rest.map (·.1)) : owed ((fileId, bad) :: rest) fileId = bad := by
  have none := owed_last absent
  unfold owed at none ⊢
  rw [List.filter_cons_of_pos (by simp), List.flatMap_cons, none, List.append_nil]

/-- As many rows as these files have together. -/
def rowCount (db : Db) (files : List Uuid) : Nat :=
  (files.map fun fileId => (db.shardsOf fileId).length).sum

theorem rowCount_le {files : List Uuid} (distinct : files.Nodup) (db : Db) :
    rowCount db files ≤ db.shards.length := by
  unfold rowCount Db.shardsOf
  generalize db.shards = shards
  induction files generalizing shards with
  | nil => exact Nat.zero_le _
  | cons fileId rest ih =>
      rw [List.nodup_cons] at distinct
      -- the rows of the later files are among those that are not of the first
      have others : (rest.map fun other => (shards.filter (·.fileId = other)).length) =
          rest.map fun other =>
            ((shards.filter (·.fileId ≠ fileId)).filter (·.fileId = other)).length := by
        apply List.map_congr_left
        intro other member
        have apart : other ≠ fileId := fun same => distinct.1 (same ▸ member)
        rw [List.filter_filter]
        congr 1
        apply List.filter_congr
        intro shard _
        by_cases here : shard.fileId = other
        · simp [here, apart]
        · simp [here]
      have split := shards.length_eq_length_filter_add fun shard => shard.fileId = fileId
      have later := ih distinct.2 (shards.filter (·.fileId ≠ fileId))
      rw [List.map_cons, List.sum_cons, others]
      simp only [decide_not] at later split ⊢
      omega

section Frames
variable {platform : Platform} {start : Shared} {fileId other : Uuid} {fits up : Uuid → Prop}

theorem moved_elsewhere {shared : Shared} {shard : Shard} {new node : Uuid}
    (wf : WellFormed shared) (present : shard ∈ shared.db.shardsOf fileId)
    (different : other ≠ fileId) :
    (moved shared shard.id new node).db.shardsOf other = shared.db.shardsOf other := by
  have still : ∀ row ∈ shared.db.shardsOf other, repointShard shard.id new node row = row := by
    intro row member
    obtain ⟨stands, owner⟩ := List.mem_filter.mp member
    obtain ⟨here, mine⟩ := List.mem_filter.mp present
    apply if_neg
    intro same
    obtain rfl := List.inj_on_of_nodup_map wf.shards_nodup stands here same
    simp only [decide_eq_true_eq] at owner mine
    exact different (owner.symm.trans mine)
  rw [shardsOf_repoint rfl, List.map_congr_left still, List.map_id']

/-- These files have the rows that they had at the start. -/
def Waiting (start : Shared) (files : List Uuid) (shared : Shared) : Prop :=
  ∀ fileId ∈ files, shared.db.shardsOf fileId = start.db.shardsOf fileId

theorem waiting_frame {files : List Uuid} (apart : fileId ∉ files) :
    Frame platform start fileId fits fun _ => Waiting start files where
  unshaken := by
    intro _
    constructor
    · intro before event after _ done calm waiting other member
      rw [calm_db calm done]
      exact waiting other member
    · intro before after db _ _ waiting other member
      rw [db]
      exact waiting other member
  drawn := fun _ _ _ waiting => waiting
  repointed := by
    intro _ shared shard new node block wf present _ _ _ waiting other member
    rw [moved_elsewhere wf present fun same => apart (same ▸ member)]
    exact waiting other member

theorem restored_elsewhere (todo : List Uuid) (different : other ≠ fileId) :
    Frame platform start fileId fits fun _ => Restored platform other up todo where
  unshaken := fun _ => (@restored_frame platform start other up).unshaken todo
  drawn := fun _ _ _ restored => restored
  repointed := by
    intro _ shared shard new node block wf present _ _ _ restored row member
    rw [moved_elsewhere wf present different] at member
    exact restored row member

end Frames

/-- The node is registered, and not decommissioned. -/
def Usable (shared : Shared) (id : Uuid) : Prop :=
  ∃ node ∈ shared.db.nodes, node.id = id ∧ node.status ≠ .decommissioned

section Pass
variable {platform : Platform} {start state : Shared} {file : File} {cap : Nat}
  {post : Tid → Job → Outcome → Shared → Prop}

theorem repairable_same {before after : Db} {other : File} {data : Bytes}
    (files : after.files = before.files)
    (rows : after.shardsOf other.id = before.shardsOf other.id)
    (repairable : Repairable platform before other data) :
    Repairable platform after other data where
  present := files ▸ repairable.present
  available := repairable.available
  positive := repairable.positive
  nonempty := repairable.nonempty
  mds := repairable.mds
  encodes := rows ▸ repairable.encodes

/-- What the pass is to do for the file: at most `m` of its shards are listed, and
there are as many spare nodes. -/
structure Manageable (db : Db) (file : File) (bad : List Uuid) : Prop where
  few : (marked db file.id bad).length ≤ file.parityShards
  spared : (marked db file.id bad).length ≤ (spares db file.id).length

/-- The repair of one file of the pass. -/
theorem repairFile_pass (distinct : Function.Injective platform.sha256Hex) (wf : WellFormed state)
    (serves : Serves start state) {current : File} {data : Bytes}
    (repairable : Repairable platform start.db current data) {bad : List Uuid} {rest : ByFile}
    (apart : current.id ∉ rest.map (·.1))
    (total : (start.db.shardsOf file.id).length = file.dataShards + file.parityShards)
    (manageable : current = file → Manageable start.db file bad)
    (waiting : Waiting start (current.id :: rest.map (·.1)) state)
    (named : file.id = current.id → current = file)
    (restored : Restored platform file.id (Usable start)
      (owed ((current.id, bad) :: rest) file.id) state)
    (room : state.issued.length + rowCount start.db (current.id :: rest.map (·.1)) ≤ cap) :
    Works platform start cap post (fun out later => (∃ count, out = .ok count) ∧
        Waiting start (rest.map (·.1)) later ∧
        Restored platform file.id (Usable start) (owed rest file.id) later ∧
        later.issued.length + rowCount start.db (rest.map (·.1)) ≤ cap)
      (repairFile platform current.id bad) state := by
  have rows := waiting current.id List.mem_cons_self
  have later : Waiting start (rest.map (·.1)) state :=
    fun other member => waiting other (List.mem_cons_of_mem _ member)
  have able := repairable_same serves.files rows repairable
  have healthy : ∀ node ∈ state.db.nodes, node.status = .healthy → Usable start node.id :=
    fun node registered up => ⟨node, serves.nodes ▸ registered, rfl, by rw [up]; decide⟩
  -- the ids it draws are for rows of this file
  have drawn : (marked state.db current.id bad).length ≤
      (start.db.shardsOf current.id).length := by
    unfold marked
    rw [rows]
    exact List.length_filter_le _ _
  have split : rowCount start.db (current.id :: rest.map (·.1)) =
      (start.db.shardsOf current.id).length + rowCount start.db (rest.map (·.1)) := by
    rw [rowCount, List.map_cons, List.sum_cons, rowCount]
  have budget : state.issued.length + (marked state.db current.id bad).length ≤
      cap - rowCount start.db (rest.map (·.1)) := by
    omega
  by_cases mine : file.id = current.id
  · obtain rfl := named mine
    rw [owed_head apart] at restored
    rw [owed_last apart]
    have manages := manageable rfl
    have same : marked state.db current.id bad = marked start.db current.id bad := by
      unfold marked
      rw [rows]
    have spare : spares state.db current.id = spares start.db current.id := by
      unfold spares
      rw [rows, serves.nodes]
    have count : (sources state.db current.id bad).length +
        (marked state.db current.id bad).length = (state.db.shardsOf current.id).length := by
      apply sources_count wf
      intro row member unmarked node registered here
      obtain ⟨-, usable, there, sameId, up⟩ := (restored row member).resolve_left unmarked
      rw [← serves.nodes] at there
      rw [List.inj_on_of_nodup_map wf.nodes_nodup registered there (here.trans sameId.symm)]
      exact up
    have few := manages.few
    apply sure_mono (repairFile_sure distinct (Nat.sub_le _ _) able (waiting_frame apart) healthy
      true (fun _ => ?_) (fun _ => ?_) ⟨rfl, fun _ => restored, later, budget⟩)
    · rintro out final - ⟨repaired, rfl, every, waits, spent⟩
      refine ⟨⟨repaired, rfl⟩, waits, (every rfl).2, ?_⟩
      omega
    · rw [← same] at few
      rw [rows, total] at count
      omega
    · rw [same, spare]
      exact manages.spared
  · rw [owed_other (Ne.symm mine)] at restored
    apply sure_mono (repairFile_sure distinct (Nat.sub_le _ _) able
      (frame_and (waiting_frame apart) (restored_elsewhere (owed rest file.id) mine)) healthy false
      (fun never => absurd never (by decide)) (fun never => absurd never (by decide))
      ⟨rfl, fun never => absurd never (by decide), ⟨later, restored⟩, budget⟩)
    rintro out final - ⟨repaired, rfl, -, ⟨waits, still⟩, spent⟩
    refine ⟨⟨repaired, rfl⟩, waits, still, ?_⟩
    omega

/-- The pass raises nothing, and all of the file's rows are intact on usable nodes. -/
def Passed (platform : Platform) (start : Shared) (file : File) (out : Except ErasureError Nat)
    (later : Shared) : Prop :=
  (∃ count, out = .ok count) ∧ Restored platform file.id (Usable start) [] later

theorem passed_sure (repaired : Nat)
    (restored : Restored platform file.id (Usable start) [] state) :
    Works platform start cap post (Passed platform start file) (.ret (.ok repaired)) state := by
  apply sure_ret (unshaken_stable (restored_frame.unshaken [])) restored
  exact fun final _ held => ⟨⟨repaired, rfl⟩, held⟩

/-- The files are repaired in turn, each once. -/
theorem repairFiles_sure (distinct : Function.Injective platform.sha256Hex) (groups : ByFile)
    (once : (groups.map (·.1)).Nodup)
    (repairables : ∀ fileId ∈ groups.map (·.1), ∃ current data, current.id = fileId ∧
      Repairable platform start.db current data ∧ (file.id = fileId → current = file))
    (total : (start.db.shardsOf file.id).length = file.dataShards + file.parityShards)
    (manageable : ∀ bad, (file.id, bad) ∈ groups → Manageable start.db file bad)
    (wf : WellFormed state) (serves : Serves start state)
    (waiting : Waiting start (groups.map (·.1)) state)
    (restored : Restored platform file.id (Usable start) (owed groups file.id) state)
    (room : state.issued.length + rowCount start.db (groups.map (·.1)) ≤ cap) :
    Works platform start cap post (Passed platform start file) (repairFiles platform groups)
      state := by
  induction groups generalizing state with
  | nil => exact passed_sure 0 restored
  | cons group rest ih =>
      obtain ⟨fileId, bad⟩ := group
      rw [List.map_cons, List.nodup_cons] at once
      obtain ⟨current, data, rfl, repairable, named⟩ := repairables fileId List.mem_cons_self
      have head : current = file → Manageable start.db file bad := by
        rintro rfl
        exact manageable bad List.mem_cons_self
      apply sure_bind (repairFile_pass distinct wf serves repairable once.1 total head waiting named
        restored room)
      rintro out later ⟨wf, serves⟩ ⟨⟨repaired, rfl⟩, waits, still, left⟩
      apply sure_bind (ih once.2 (fun other member => repairables other
        (List.mem_cons_of_mem _ member)) (fun others member => manageable others
        (List.mem_cons_of_mem _ member)) wf serves waits still left)
      rintro out final - ⟨⟨more, rfl⟩, restored⟩
      exact passed_sure (repaired + more) restored

/-- The rows that are on these nodes. -/
def displaced (db : Db) (fileId : Uuid) (retired : List Uuid) : List Shard :=
  (db.shardsOf fileId).filter (·.nodeId ∈ retired)

/-- An available file, all of whose shards are intact, with no deletion on its way,
and on healthy nodes unless these are among the ones to be retired. -/
structure Retiring (platform : Platform) (shared : Shared) (file : File) (retired : List Uuid) :
    Prop where
  present : file ∈ shared.db.files
  available : file.status = .available
  intact : ∀ row ∈ shared.db.shardsOf file.id, Intact platform shared row
  spared : ∀ flight ∈ shared.flights, flight.state = .pending →
    ∀ row ∈ shared.db.shardsOf file.id, flight.node = row.nodeId → flight.request ≠ .delete row.id
  staying : ∀ row ∈ shared.db.shardsOf file.id, row.nodeId ∉ retired → Up shared row.nodeId

section Selection
variable {retired : List Uuid} {time grace : Nat} {rows : List (Shard × StorageNode)}

def grouped (rows : List (Shard × StorageNode)) : ByFile :=
  rows.foldl (fun groups row => groups.add row.1.fileId row.1.id) []

theorem grouped_noted {fileId id : Uuid} :
    Noted (grouped rows) fileId id ↔ ∃ row ∈ rows, row.1.fileId = fileId ∧ row.1.id = id := by
  have noted := adds_noted (fun row : Shard × StorageNode => row.1.fileId) (·.1.id) rows []
    fileId id
  rw [grouped, noted]
  simp [Noted]

theorem grouped_once (rows : List (Shard × StorageNode)) : ((grouped rows).map (·.1)).Nodup :=
  adds_distinct (fun row : Shard × StorageNode => row.1.fileId) (·.1.id) rows [] List.nodup_nil

theorem adds_keys {fileId : Uuid} (bad : ByFile)
    (member : fileId ∈ (rows.foldl (fun groups row => groups.add row.1.fileId row.1.id) bad).map
      (·.1)) : fileId ∈ bad.map (·.1) ∨ ∃ row ∈ rows, row.1.fileId = fileId := by
  induction rows generalizing bad with
  | nil => exact Or.inl member
  | cons row rest ih =>
      rw [List.foldl_cons] at member
      rcases ih _ member with added | ⟨later, inside, same⟩
      · by_cases here : row.1.fileId = fileId
        · exact Or.inr ⟨row, List.mem_cons_self, here⟩
        · left
          obtain ⟨group, among, named⟩ := List.mem_map.mp added
          unfold ByFile.add at among
          split at among
          · obtain ⟨old, inside, rfl⟩ := List.mem_map.mp among
            by_cases same : old.1 = row.1.fileId
            · rw [if_pos same] at named
              exact absurd named here
            · rw [if_neg same] at named
              exact named ▸ List.mem_map_of_mem inside
          · rcases List.mem_append.mp among with old | new
            · exact named ▸ List.mem_map_of_mem old
            · rw [List.mem_singleton.mp new] at named
              exact absurd named here
      · exact Or.inr ⟨later, List.mem_cons_of_mem _ inside, same⟩

/-- Of the file, the pass only finds rows on the retired nodes. -/
theorem selected_displaced (wf : WellFormed start)
    (retiring : Retiring platform start file retired)
    (selected : rows.Perm (start.db.placed.filter fun row =>
      ofAvailable start.db row.1 && lost time grace row.2))
    {row : Shard} (member : row ∈ start.db.shardsOf file.id)
    (noted : Noted (grouped rows) file.id row.id) : row.nodeId ∈ retired := by
  obtain ⟨stands, owner⟩ := List.mem_filter.mp member
  obtain ⟨found, among, -, sameId⟩ := grouped_noted.mp noted
  obtain ⟨joined, chosen⟩ := List.mem_filter.mp (selected.mem_iff.mp among)
  obtain ⟨there, registered, onNode⟩ := placed_shard joined
  have same := List.inj_on_of_nodup_map wf.shards_nodup there stands sameId
  rw [same] at onNode
  by_contra stays
  obtain ⟨node, healthy, named, up⟩ := retiring.staying row member stays
  have one := List.inj_on_of_nodup_map wf.nodes_nodup registered healthy
    (onNode.trans named.symm)
  simp [lost, one, up] at chosen

/-- It finds every row on a decommissioned node. -/
theorem unselected_usable (wf : WellFormed start)
    (retiring : Retiring platform start file retired)
    (selected : rows.Perm (start.db.placed.filter fun row =>
      ofAvailable start.db row.1 && lost time grace row.2))
    {row : Shard} (member : row ∈ start.db.shardsOf file.id)
    (left : ¬ Noted (grouped rows) file.id row.id) : Usable start row.nodeId := by
  obtain ⟨stands, owner⟩ := List.mem_filter.mp member
  obtain ⟨node, registered, onNode⟩ := List.mem_map.mp (wf.hosted row stands)
  refine ⟨node, registered, onNode, fun status => left ?_⟩
  have placed : (row, node) ∈ start.db.placed := mem_placed stands registered onNode
  have known : ofAvailable start.db row = true := by
    unfold ofAvailable
    apply List.any_eq_true.mpr
    refine ⟨file, retiring.present, ?_⟩
    simpa [retiring.available] using (of_decide_eq_true owner).symm
  apply grouped_noted.mpr
  refine ⟨(row, node), selected.mem_iff.mpr (List.mem_filter.mpr ⟨placed, ?_⟩),
    of_decide_eq_true owner, rfl⟩
  simp [known, lost, status]

theorem selected_manageable (wf : WellFormed start)
    (retiring : Retiring platform start file retired)
    (few : (displaced start.db file.id retired).length ≤ file.parityShards)
    (spare : (displaced start.db file.id retired).length ≤ (spares start.db file.id).length)
    (selected : rows.Perm (start.db.placed.filter fun row =>
      ofAvailable start.db row.1 && lost time grace row.2))
    {bad : List Uuid} (listed : (file.id, bad) ∈ grouped rows) :
    Manageable start.db file bad := by
  have count : (marked start.db file.id bad).length ≤
      (displaced start.db file.id retired).length := by
    unfold marked displaced
    rw [← List.countP_eq_length_filter, ← List.countP_eq_length_filter]
    apply List.countP_mono_left
    intro row member inside
    apply decide_eq_true
    apply selected_displaced wf retiring selected member
    exact ⟨_, listed, rfl, of_decide_eq_true inside⟩
  exact ⟨count.trans few, count.trans spare⟩

end Selection

/-- What the pass reads first is still as at the start, and the file is intact. -/
def Unchanged (platform : Platform) (start : Shared) (file : File) (shared : Shared) : Prop :=
  shared.db = start.db ∧ shared.issued = start.issued ∧
    Restored platform file.id (fun _ => True) [] shared

theorem unchanged_unshaken : Unshaken platform start (Unchanged platform start file) := by
  have restored := (@restored_frame platform start file.id fun _ => True).unshaken []
  constructor
  · intro before event after serves done calm held
    refine ⟨(calm_db calm done).trans held.1, ?_, ?_⟩
    · exact (environment_undisturbed event done).issued.trans held.2.1
    · exact restored.calm before event after serves done calm held.2.2
  · intro before after db objects issued held
    exact ⟨db.trans held.1, issued.trans held.2.1,
      restored.own before after db objects issued held.2.2⟩

theorem repairLostShards_sure (distinct : Function.Injective platform.sha256Hex)
    {retired : List Uuid} (wf : WellFormed start)
    (repairables : ∀ current ∈ start.db.files, current.status = .available →
      ∃ data, Repairable platform start.db current data)
    (total : (start.db.shardsOf file.id).length = file.dataShards + file.parityShards)
    (retiring : Retiring platform start file retired)
    (few : (displaced start.db file.id retired).length ≤ file.parityShards)
    (spare : (displaced start.db file.id retired).length ≤ (spares start.db file.id).length)
    (settings : Settings) (room : start.issued.length + start.db.shards.length ≤ cap) :
    Works platform start cap post (Passed platform start file)
      (repairLostShards platform settings) start := by
  have begins : Unchanged platform start file start :=
    ⟨rfl, rfl, fun row member => Or.inr ⟨retiring.intact row member, trivial⟩⟩
  apply works_reads .now trivial unchanged_unshaken begins
  intro before time _ _ held _
  apply works_reads (.selectPlaced _) trivial unchanged_unshaken held
  intro before rows wfNow serves held done
  obtain ⟨selected, -⟩ := Option.ite_none_right_eq_some.mp done
  obtain ⟨db, issued, intact⟩ := held
  rw [db] at selected
  apply repairFiles_sure distinct (grouped rows) (grouped_once rows) ?_ total ?_ wfNow serves ?_ ?_
  · rw [issued]
    exact (Nat.add_le_add_left (rowCount_le (grouped_once rows) start.db) _).trans room
  · intro fileId member
    obtain ⟨row, among, rfl⟩ := (adds_keys [] member).resolve_left List.not_mem_nil
    obtain ⟨-, chosen⟩ := List.mem_filter.mp (selected.mem_iff.mp among)
    rw [Bool.and_eq_true] at chosen
    obtain ⟨current, present, facts⟩ := List.any_eq_true.mp chosen.1
    rw [Bool.and_eq_true] at facts
    obtain ⟨data, repairable⟩ := repairables current present (of_decide_eq_true facts.2)
    refine ⟨current, data, of_decide_eq_true facts.1, repairable, fun same => ?_⟩
    exact List.inj_on_of_nodup_map wf.files_nodup present retiring.present
      ((of_decide_eq_true facts.1).trans same.symm)
  · exact fun bad listed => selected_manageable wf retiring few spare selected listed
  · exact fun fileId _ => by rw [db]
  -- A row is listed, or its node is not decommissioned and it may stay.
  · intro row member
    have whole := (intact row member).resolve_left List.not_mem_nil
    rw [db] at member
    by_cases noted : Noted (grouped rows) file.id row.id
    · exact Or.inl (mem_owed.mpr noted)
    · exact Or.inr ⟨whole.1, unselected_usable wf retiring selected member noted⟩

end Pass

/-! ### The pass alone -/

/-- All of the file's rows are intact, and none is on a decommissioned node. -/
structure Vacated (platform : Platform) (file : File) (shared : Shared) : Prop where
  count : (shared.db.shardsOf file.id).length = file.dataShards + file.parityShards
  rows : ∀ row ∈ shared.db.shardsOf file.id,
    Intact platform shared row ∧ Usable shared row.nodeId

section Alone
variable {platform : Platform} {file : File} {retired : List Uuid} {settings : Settings}
  {before begun : ServiceConfig}

def returned (platform : Platform) (start : Shared) (file : File) (thread : Tid) (_ : Job)
    (out : Outcome) (later : Shared) : Prop :=
  thread = .worker →
    (∃ count, out = .returned count) ∧ Restored platform file.id (Usable start) [] later

/-- A pass on its own that has what it takes to move the file's displaced rows. -/
structure Moves (platform : Platform) (file : File) (retired : List Uuid) (settings : Settings)
    (before begun : ServiceConfig) : Prop where
  alone : Alone platform (.repairLostShards settings) before begun
  retiring : Retiring platform before.shared file retired
  few : (displaced before.shared.db file.id retired).length ≤ file.parityShards
  spare : (displaced before.shared.db file.id retired).length ≤
    (spares before.shared.db file.id).length
  mds : ∀ current ∈ before.shared.db.files, current.status = .available →
    Mds platform.zfec current.dataShards (current.dataShards + current.parityShards)

theorem pass_moving (distinct : Function.Injective platform.sha256Hex)
    (moves : Moves platform file retired settings before begun) :
    Moving (service platform) ((reliable platform before.shared).contract
        (returned platform before.shared file)) .worker
      (Answerable before.shared
        (before.shared.issued.length + before.shared.db.shards.length)) begun := by
  obtain ⟨clock, labels, reached⟩ := moves.alone.reached
  have wf := (service_safe reached).inv
  have total : (before.shared.db.shardsOf file.id).length =
      file.dataShards + file.parityShards := by
    apply rows_count wf moves.retiring.present
    rw [moves.retiring.available]
    decide
  have repairables : ∀ current ∈ before.shared.db.files, current.status = .available →
      ∃ data, Repairable platform before.shared.db current data := by
    intro current present available
    obtain ⟨data, repairable, -⟩ :=
      available_repairable reached present available (moves.mds current present available)
    exact ⟨data, repairable⟩
  apply alone_moving moves.alone
  · exact fun thread job out later other same => absurd same other
  apply sure_map
  apply sure_mono (repairLostShards_sure distinct wf repairables total moves.retiring moves.few
    moves.spare settings (Nat.le_refl _))
  rintro out later - ⟨⟨count, rfl⟩, restored⟩ -
  exact ⟨⟨count, rfl⟩, restored⟩

/-- Where the pass ends, every row is intact on a node that is not decommissioned. -/
theorem pass_vacates (distinct : Function.Injective platform.sha256Hex)
    (moves : Moves platform file retired settings before begun) {labels : List ServiceLabel}
    {config last : ServiceConfig} {out : Outcome}
    (run : Run (Served platform before) begun labels config)
    (finish : Step (service platform) config
      (.finish .worker (.repairLostShards settings) out) last) :
    (∃ count, out = .returned count) ∧ Vacated platform file last.shared := by
  obtain ⟨still, wf, serves, promised⟩ :=
    alone_ends moves.alone (pass_moving distinct moves) run finish
  obtain ⟨count, restored⟩ := promised rfl
  rw [still]
  refine ⟨count, ?_, fun row member => ?_⟩
  · have present : file ∈ config.shared.db.files := by
      rw [serves.files]
      exact moves.retiring.present
    apply rows_count wf present
    rw [moves.retiring.available]
    decide
  · have whole := (restored row member).resolve_left List.not_mem_nil
    unfold Usable at whole
    rw [← serves.nodes] at whole
    exact whole

/-- The pass has ended, or its next steps can be taken until it has. -/
theorem pass_returns (distinct : Function.Injective platform.sha256Hex)
    (moves : Moves platform file retired settings before begun)
    (enough : before.shared.issued.length + before.shared.db.shards.length ≤ 2 ^ 128)
    {labels : List ServiceLabel} {config : ServiceConfig}
    (run : Run (Served platform before) begun labels config) :
    (∃ out, .finish .worker (.repairLostShards settings) out ∈ labels) ∨
      ∃ more last count done, Run (Served platform before) config more last ∧
        Step (service platform) last
          (.finish .worker (.repairLostShards settings) (.returned count)) done := by
  rcases alone_returns moves.alone (pass_moving distinct moves) enough run with
    finished | ⟨more, last, out, done, served, finish⟩
  · exact Or.inl finished
  · right
    obtain ⟨⟨count, rfl⟩, -⟩ := pass_vacates distinct moves (run_append run served) finish
    exact ⟨more, last, count, done, served, finish⟩

end Alone

end SecureFileSystem.RepairPass
