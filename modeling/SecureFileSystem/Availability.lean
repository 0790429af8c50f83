import SecureFileSystem.BitRot

/-!
What is reported of a file's shards, and what a download of it does: two queries
over the same rows, whatever the statuses of the nodes are.
-/

namespace SecureFileSystem.Availability

open Base Database Fleet Session LifeCycle Program Transition Erasure Files Service Stability
  Conduct Guarantees Reading Restoration BitRot

def assigned (db : Db) (statuses : Uuid → NodeStatus) : Db :=
  { db with nodes := db.nodes.map fun node => { node with status := statuses node.id } }

/-- Queries are answered from this database, in any order. -/
def Queries (world : World) (db : Db) : Prop :=
  ∀ condition, (world.rows condition).Perm
    (db.placed.filter fun row => condition db row.1 row.2)

def rowsOn (db : Db) (statuses : Uuid → NodeStatus) (fileId : Uuid) (status : NodeStatus) :
    List Shard :=
  (db.shardsOf fileId).filter fun row => statuses row.nodeId = status

def report (db : Db) (statuses : Uuid → NodeStatus) (file : File) : Availability :=
  availabilityOf (assigned db statuses).placed file

theorem placed_assigned (db : Db) (statuses : Uuid → NodeStatus) :
    (assigned db statuses).placed =
      db.placed.map fun row => (row.1, { row.2 with status := statuses row.2.id }) := by
  simp only [Db.placed, assigned, List.map_flatMap, List.filter_map, List.map_map]
  rfl

theorem assigned_node {db : Db} {statuses : Uuid → NodeStatus} {row : Shard × StorageNode}
    (member : row ∈ (assigned db statuses).placed) :
    row.2.id = row.1.nodeId ∧ row.2.status = statuses row.1.nodeId := by
  rw [placed_assigned] at member
  obtain ⟨source, joined, rfl⟩ := List.mem_map.mp member
  have node := (placed_shard joined).2.2
  exact ⟨node, congrArg statuses node⟩

section Rows
variable {shared : Shared} {statuses : Uuid → NodeStatus} {file : File}

theorem placed_rows (wf : WellFormed shared) (statuses : Uuid → NodeStatus) (fileId : Uuid)
    (keep : Shard → NodeStatus → Bool) :
    ((((assigned shared.db statuses).placed.filter fun row =>
      row.1.fileId = fileId && keep row.1 row.2.status)).map Prod.fst).Perm
      ((shared.db.shardsOf fileId).filter fun row => keep row (statuses row.nodeId)) := by
  have every := placed_perm wf (List.Perm.refl
    (shared.db.placed.filter fun row => row.1.fileId = fileId))
  have kept := every.filter fun row => keep row (statuses row.nodeId)
  refine List.Perm.trans (List.Perm.of_eq ?_) kept
  rw [placed_assigned, List.filter_map, List.map_map, List.filter_map, List.filter_filter]
  congr 1
  apply List.filter_congr
  intro row member
  have named := (placed_shard member).2.2
  simp [named, Bool.and_comm]

theorem report_usable (wf : WellFormed shared) :
    (report shared.db statuses file).usableShards =
      (rowsOn shared.db statuses file.id .healthy).length := by
  have same := placed_rows wf statuses file.id fun _ status => status = .healthy
  simpa [report, availabilityOf, rowsOn] using same.length_eq

/-- What a report says: the state goes by the file's shards on healthy nodes. -/
structure Reports (db : Db) (statuses : Uuid → NodeStatus) (file : File) (reported : Availability) :
    Prop where
  usable : reported.usableShards = (rowsOn db statuses file.id .healthy).length
  total : reported.totalShards = file.dataShards + file.parityShards
  required : reported.requiredShards = file.dataShards
  bounded : reported.usableShards ≤ reported.totalShards
  healthy : reported.state = .healthy ↔ ∀ index < file.dataShards + file.parityShards,
    ∃ row ∈ db.shardsOf file.id, row.shardIndex = index ∧ statuses row.nodeId = .healthy
  degraded : reported.state = .degraded ↔
    file.dataShards ≤ (rowsOn db statuses file.id .healthy).length ∧
      (rowsOn db statuses file.id .healthy).length < file.dataShards + file.parityShards
  unavailable : reported.state = .unavailable ↔
    (rowsOn db statuses file.id .healthy).length < file.dataShards

/-- All of a file's rows are on healthy nodes when as many as it has are. -/
theorem full_iff (placed : WellPlaced shared file) :
    file.dataShards + file.parityShards ≤ (rowsOn shared.db statuses file.id .healthy).length ↔
      ∀ index < file.dataShards + file.parityShards, ∃ row ∈ shared.db.shardsOf file.id,
        row.shardIndex = index ∧ statuses row.nodeId = .healthy := by
  have count := placed.count
  constructor
  · intro full index bound
    have whole : rowsOn shared.db statuses file.id .healthy = shared.db.shardsOf file.id :=
      List.filter_sublist.eq_of_length_le (by rw [count]; exact full)
    have listed : index ∈ (shared.db.shardsOf file.id).map (·.shardIndex) := by
      rw [placed.indices]
      exact List.mem_range.mpr bound
    obtain ⟨row, member, same⟩ := List.mem_map.mp listed
    have up := List.filter_eq_self.mp whole row member
    exact ⟨row, member, same, of_decide_eq_true up⟩
  · intro every
    have part : List.range (file.dataShards + file.parityShards) ⊆
        (rowsOn shared.db statuses file.id .healthy).map (·.shardIndex) := by
      intro index bound
      obtain ⟨row, member, rfl, up⟩ := every index (List.mem_range.mp bound)
      exact List.mem_map_of_mem (List.mem_filter.mpr ⟨member, decide_eq_true up⟩)
    have fewer := (List.nodup_range.subperm part).length_le
    simpa using fewer

theorem report_state (wf : WellFormed shared) (statuses : Uuid → NodeStatus) (file : File) :
    (report shared.db statuses file).state =
      if file.dataShards + file.parityShards ≤
          (rowsOn shared.db statuses file.id .healthy).length then .healthy
      else if file.dataShards ≤ (rowsOn shared.db statuses file.id .healthy).length then .degraded
      else .unavailable := by
  rw [← report_usable wf]
  rfl

theorem report_reports (wf : WellFormed shared) (placed : WellPlaced shared file)
    (statuses : Uuid → NodeStatus) :
    Reports shared.db statuses file (report shared.db statuses file) := by
  have state := report_state wf statuses file
  constructor
  case usable => exact report_usable wf
  case total => rfl
  case required => rfl
  case bounded =>
    rw [report_usable wf]
    exact (List.length_filter_le _ _).trans_eq placed.count
  case healthy =>
    rw [← full_iff placed, state]
    split
    · simp [*]
    · split <;> simp [*]
  case degraded =>
    rw [state]
    split
    · simp only [reduceCtorEq, false_iff]
      omega
    · split <;> simp <;> omega
  case unavailable =>
    rw [state]
    split
    · simp only [reduceCtorEq, false_iff]
      omega
    · split <;> simp <;> omega

/-- From a file that no one can read to one with all its shards at hand. -/
def rank : AvailabilityState → Nat
  | .unavailable => 0
  | .degraded => 1
  | .healthy => 2

theorem report_falls (wf : WellFormed shared) {fewer : Uuid → NodeStatus}
    (fall : ∀ id, fewer id = .healthy → statuses id = .healthy) :
    rank (report shared.db fewer file).state ≤ rank (report shared.db statuses file).state := by
  have part : (rowsOn shared.db fewer file.id .healthy).length ≤
      (rowsOn shared.db statuses file.id .healthy).length := by
    apply List.Sublist.length_le
    apply List.monotone_filter_right
    intro row up
    exact decide_eq_true (fall _ (of_decide_eq_true up))
  rw [report_state wf fewer file, report_state wf statuses file]
  split
  · rw [if_pos (by omega)]
  · split
    · split
      · decide
      · rw [if_pos (by omega)]
    · exact Nat.zero_le _

end Rows

section Query
variable {world : World} {db : Db} {statuses : Uuid → NodeStatus}

theorem availabilityOf_selected {rows : List (Shard × StorageNode)} {files : List File}
    (same : rows.Perm ((assigned db statuses).placed.filter fun row =>
      row.1.fileId ∈ files.map (·.id))) {file : File} (listed : file ∈ files) :
    availabilityOf rows file = report db statuses file := by
  have among : file.id ∈ files.map (·.id) := List.mem_map_of_mem listed
  have count : (rows.filter fun row => row.1.fileId = file.id && row.2.status = .healthy).length =
      ((assigned db statuses).placed.filter fun row =>
        row.1.fileId = file.id && row.2.status = .healthy).length := by
    rw [(same.filter _).length_eq, List.filter_filter]
    congr 1
    apply List.filter_congr
    intro row _
    by_cases own : row.1.fileId = file.id
    · rw [own]
      simp [among]
    · simp [own]
  simp only [report, availabilityOf, count]

theorem availability_settles (queries : Queries world (assigned db statuses)) (files : List File) :
    Settles world (availability files)
      (files.map fun file => (file.id, report db statuses file)) := by
  unfold availability
  by_cases none : files = []
  · rw [if_pos none, none]
    exact settles_ret _
  · rw [if_neg none]
    apply settles_bind (settles_select _)
    have reports : files.map (fun file => (file.id, availabilityOf
        (world.rows fun _ shard _ => shard.fileId ∈ files.map (·.id)) file)) =
        files.map fun file => (file.id, report db statuses file) := by
      apply List.map_congr_left
      intro file listed
      rw [availabilityOf_selected (queries _) listed]
    rw [← reports]
    exact settles_ret _

end Query

section Order

theorem behind_unhealthy {left right : Shard × StorageNode}
    (ordered : candidateBefore left right = true) (down : left.2.status ≠ .healthy) :
    right.2.status ≠ .healthy := by
  intro up
  simp [candidateBefore, down, up] at ordered

theorem first_healthy (candidates : List (Shard × StorageNode)) (k : Nat)
    (ordered : candidates.Pairwise fun left right => candidateBefore left right = true)
    (enough : k ≤ candidates.countP fun row => row.2.status = .healthy) :
    ∀ row ∈ candidates.take k, row.2.status = .healthy := by
  induction candidates generalizing k with
  | nil => simp
  | cons row rest ih =>
      cases k with
      | zero => simp
      | succ k =>
          rw [List.pairwise_cons] at ordered
          have up : row.2.status = .healthy := by
            by_contra down
            have none : rest.countP (fun row => row.2.status = .healthy) = 0 := by
              apply List.countP_eq_zero.mpr
              intro other member
              simpa using behind_unhealthy (ordered.1 other member) down
            rw [List.countP_cons, none] at enough
            simp [down] at enough
          intro other member
          rw [List.take_succ_cons, List.mem_cons] at member
          rcases member with rfl | later
          · exact up
          · apply ih k ordered.2 _ other later
            rw [List.countP_cons] at enough
            simp only [up] at enough
            simpa using enough

end Order

/-- Every node marked healthy gives the file's blocks on it as they were written. -/
def Serves (platform : Platform) (world : World) (db : Db) (fileId : Uuid) : Prop :=
  ∀ row ∈ db.placed, row.1.fileId = fileId → row.2.status = .healthy →
    ∃ block, getShard (world.reply row.2.id (.get row.1.id)) = .ok block ∧
      platform.sha256Hex block = row.1.checksumSha256

section Download
variable {platform : Platform} {world : World} {shared : Shared} {statuses : Uuid → NodeStatus}
  {file : File} {data : Bytes}

/-- When the first batch brings `k` blocks, the loop ends after it. -/
theorem fetchBlocks_first (candidates : List (Shard × StorageNode)) (k : Nat) (positive : 1 ≤ k)
    (enough : k ≤ candidates.length)
    (full : k ≤ (collect platform [] ((candidates.take k).map fun row =>
      (row, world.reply row.2.id (.get row.1.id)))).length) (sent : List (Uuid × NodeRequest)) :
    attempt world sent (fetchBlocks platform candidates k) =
      some (sent ++ getRequests (candidates.take k),
        collect platform [] ((candidates.take k).map fun row =>
          (row, world.reply row.2.id (.get row.1.id)))) := by
  obtain ⟨fuel, length⟩ : ∃ fuel, candidates.length = fuel + 1 :=
    Nat.exists_eq_succ_of_ne_zero (by omega)
  have some : candidates ≠ [] := List.ne_nil_of_length_pos (by omega)
  rw [fetchBlocks, length, fetchRounds, if_pos ⟨positive, some⟩]
  change attempt world sent ((gather _).bind _) = _
  rw [attempt_bind, attempt_gather, Option.bind_some, List.length_nil, Nat.sub_zero, zip_answers]
  cases fuel with
  | zero => rfl
  | succ fuel =>
      rw [fetchRounds, if_neg (by omega)]
      rfl

theorem candidates_placed (wf : WellFormed shared)
    (queries : Queries world (assigned shared.db statuses)) {order : List (Shard × StorageNode)}
    (same : order.Perm (world.rows (readable file))) :
    (order.map Prod.fst).Subperm (shared.db.shardsOf file.id) ∧
      order.countP (fun row => row.2.status = .healthy) =
        (rowsOn shared.db statuses file.id .healthy).length ∧
      ∀ row ∈ order, row ∈ (assigned shared.db statuses).placed ∧ row.1.fileId = file.id := by
  have selected := same.trans (queries (readable file))
  refine ⟨?_, ?_, fun row member => ?_⟩
  · have rows := placed_rows wf statuses file.id
      fun _ status => status ≠ .decommissioned
    exact ((selected.map Prod.fst).trans rows).subperm.trans List.filter_sublist.subperm
  · have rows := placed_rows wf statuses file.id fun _ status => status = .healthy
    rw [selected.countP_eq, List.countP_eq_length_filter, List.filter_filter, rowsOn,
      ← rows.length_eq, List.length_map]
    congr 1
    apply List.filter_congr
    intro row _
    by_cases up : row.2.status = .healthy
    · simp [readable, up]
    · simp [up]
  · obtain ⟨inside, readable_row⟩ := List.mem_filter.mp (selected.mem_iff.mp member)
    simp only [readable, Bool.and_eq_true, decide_eq_true_eq] at readable_row
    exact ⟨inside, readable_row.1⟩

/-- A download from `k` healthy nodes and no other. -/
structure FromHealthy (db : Db) (statuses : Uuid → NodeStatus) (file : File)
    (requests : List (Uuid × NodeRequest)) : Prop where
  count : requests.length = file.dataShards
  once : requests.Nodup
  healthy : ∀ request ∈ requests, ∃ row ∈ db.shardsOf file.id,
    statuses row.nodeId = .healthy ∧ request = (row.nodeId, .get row.id)

/-- With `k` shards on healthy nodes that serve them, the download reads these. -/
theorem readFile_healthy (distinct : Function.Injective platform.sha256Hex) (wf : WellFormed shared)
    (repairable : Repairable platform shared.db file data) (size : file.sizeBytes = data.length)
    (checksum : file.checksumSha256 = platform.sha256Hex data)
    (queries : Queries world (assigned shared.db statuses))
    (serves : Serves platform world (assigned shared.db statuses) file.id)
    (enough : file.dataShards ≤ (rowsOn shared.db statuses file.id .healthy).length) :
    ∃ requests, (∀ sent, attempt world sent (readFile platform file) =
      some (sent ++ requests, .ok data)) ∧ FromHealthy shared.db statuses file requests := by
  obtain ⟨order, same, ordered, candidates⟩ := attempt_candidates world file
  obtain ⟨rows, count, among⟩ := candidates_placed wf queries same
  have encodes := repairable.encodes order rows
  have positive := repairable.positive
  -- Rows of healthy nodes come first, so the first k answer.
  have up := first_healthy order file.dataShards ordered (by rw [count]; exact enough)
  have inside : ∀ row ∈ order.take file.dataShards, row ∈ order :=
    fun row => List.mem_of_mem_take
  have long : file.dataShards ≤ order.length := by
    rw [← count] at enough
    exact enough.trans List.countP_le_length
  have firsts := encodes_sublist encodes (List.take_sublist file.dataShards order)
  have good : (order.take file.dataShards).countP
      (intact platform world data file.dataShards file.parityShards) = file.dataShards := by
    rw [List.countP_eq_length.mpr, List.length_take, Nat.min_eq_left long]
    intro row member
    obtain ⟨present, own⟩ := among row (inside row member)
    obtain ⟨block, read, real⟩ := serves row present own (up row member)
    have code := distinct (real.trans (firsts.checksum row member))
    simp [intact, read, code]
  have grows : Grows platform world data file.dataShards file.parityShards []
      (order.take file.dataShards) _ := collect_grows distinct [] _ firsts
    ⟨List.nodup_nil, fun _ member => absurd member List.not_mem_nil⟩ (fun _ _ => List.not_mem_nil)
  have full := grows.counted
  rw [good, List.length_nil, Nat.zero_add] at full
  refine ⟨getRequests (order.take file.dataShards), fun sent => ?_, ?_⟩
  · change attempt world sent ((shardCandidates file [] []).bind _) = _
    rw [attempt_bind, candidates, Option.bind_some]
    change attempt world sent ((fetchBlocks platform order file.dataShards).bind _) = _
    rw [attempt_bind, fetchBlocks_first order file.dataShards positive long full, Option.bind_some,
      if_neg (Nat.not_lt.mpr full), size, decode_genuine repairable.mds positive grows.genuine full]
    simp only [checksum, ne_eq, not_true_eq_false, if_false]
    rfl
  · constructor
    case count => simp [getRequests, Nat.min_eq_left long]
    case once =>
      have ids : (((order.take file.dataShards).map Prod.fst).map (·.id)).Nodup := by
        obtain ⟨part, perm, sublist⟩ := ((List.take_sublist file.dataShards order).map
          Prod.fst).subperm.trans rows
        apply (perm.map _).nodup_iff.mp
        exact wf.shards_nodup.sublist ((sublist.trans List.filter_sublist).map _)
      rw [List.map_map] at ids
      apply List.Nodup.of_map (fun request : Uuid × NodeRequest => request.2.shard.getD 0)
      rw [getRequests, List.map_map]
      exact ids
    case healthy =>
      intro request member
      obtain ⟨row, first, rfl⟩ := List.mem_map.mp member
      have listed := rows.subset (List.mem_map_of_mem (inside row first))
      obtain ⟨node, status⟩ := assigned_node (among row (inside row first)).1
      refine ⟨row.1, listed, status.symm.trans (up row first), ?_⟩
      rw [← node]

end Download

/-- In every reachable state and under every assignment of statuses, what is
reported of an available file says what a download of it finds. -/
theorem availability_agrees (platform : Platform)
    (distinct : Function.Injective platform.sha256Hex) (clock : Nat) (labels : List ServiceLabel)
    (config : ServiceConfig)
    (run : Run (Step (service platform)) (deployed clock) labels config) :
    (∀ statuses world, Queries world (assigned config.shared.db statuses) → ∀ files,
      Settles world (availability files)
        (files.map fun file => (file.id, report config.shared.db statuses file))) ∧
    ∀ file ∈ config.shared.db.files, file.status = .available →
      (∀ statuses, Reports config.shared.db statuses file (report config.shared.db statuses file)) ∧
      (∀ statuses fewer : Uuid → NodeStatus,
        (∀ id, fewer id = .healthy → statuses id = .healthy) →
          rank (report config.shared.db fewer file).state ≤
            rank (report config.shared.db statuses file).state) ∧
      (Mds platform.zfec file.dataShards (file.dataShards + file.parityShards) →
        ∀ statuses world, Queries world (assigned config.shared.db statuses) →
          Serves platform world (assigned config.shared.db statuses) file.id →
          (report config.shared.db statuses file).state ≠ .unavailable →
          ∃ data requests, file.checksumSha256 = platform.sha256Hex data ∧
            (∀ sent, attempt world sent (readFile platform file) =
              some (sent ++ requests, .ok data)) ∧
            FromHealthy config.shared.db statuses file requests) := by
  have wf := (service_safe run).inv
  constructor
  · intro statuses world queries files
    exact availability_settles queries files
  · intro file present available
    have placed := descends_placed wf present (by simp [available])
    have reports := report_reports wf placed
    refine ⟨reports, fun statuses fewer fall => report_falls wf fall, ?_⟩
    intro mds statuses world queries serves reachable
    obtain ⟨data, repairable, size, checksum⟩ := available_repairable run present available mds
    have enough := mt (reports statuses).unavailable.mpr reachable
    obtain ⟨requests, settled, healthy⟩ := readFile_healthy distinct wf repairable size checksum
      queries serves (Nat.not_lt.mp enough)
    exact ⟨data, requests, checksum, settled, healthy⟩

def oneDown (id : Uuid) : NodeStatus := if id = 1 then .unreachable else .healthy

def serving (shared : Shared) : World where
  rows condition := (assigned shared.db oneDown).placed.filter fun row =>
    condition (assigned shared.db oneDown) row.1 row.2
  reply node request :=
    some (serve plain (request.shard.bind (shared.objects node)) request).1

def given (shared : Shared) (row : Shard × StorageNode) : Bool :=
  match getShard ((serving shared).reply row.2.id (.get row.1.id)) with
  | .ok block => decide (plain.sha256Hex block = row.1.checksumSha256)
  | .error _ => false

theorem availability_agrees_degraded : ∃ labels config, ∃ file ∈ config.shared.db.files,
    ∃ data requests, Run (Step (service plain)) (deployed 0) labels config ∧
      (report config.shared.db oneDown file).state = .degraded ∧
      attempt (serving config.shared) [] (readFile plain file) = some (requests, .ok data) ∧
      FromHealthy config.shared.db oneDown file requests := by
  obtain ⟨labels, config, run, passed⟩ := drive_reaches (service plain) (deployed 0) smallUploaded
    (fun _ config => (assigned config.shared.db oneDown).placed.all (given config.shared) &&
      config.shared.db.files.any fun file => decide (file.status = .available ∧
        file.dataShards = 1 ∧ (report config.shared.db oneDown file).state = .degraded))
    (by decide +kernel)
  rw [Bool.and_eq_true] at passed
  obtain ⟨file, present, facts⟩ := List.any_eq_true.mp passed.2
  obtain ⟨available, one, degraded⟩ := of_decide_eq_true facts
  have serves : Serves plain (serving config.shared) (assigned config.shared.db oneDown)
      file.id := by
    intro row member _ _
    have served := List.all_eq_true.mp passed.1 row member
    unfold given at served
    split at served
    · rename_i block read
      exact ⟨block, read, of_decide_eq_true served⟩
    · cases served
  have agrees := (availability_agrees plain plain_sha256Hex 0 labels config run).2 file present
    available
  obtain ⟨data, requests, -, settled, healthy⟩ := agrees.2.2 (by rw [one]; exact replication_mds _)
    oneDown (serving config.shared) (fun _ => List.Perm.refl _) serves (by rw [degraded]; decide)
  exact ⟨labels, config, file, present, data, requests, run, degraded, settled [], healthy⟩

end SecureFileSystem.Availability
