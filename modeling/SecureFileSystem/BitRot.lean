import SecureFileSystem.Restoration

/-!
Bit rot in a healthy fleet. A repair of at most `m` shards of a file moves each
of them to a node that holds no shard of the file, so it takes as many of those
as there are shards to replace.
-/

namespace SecureFileSystem.BitRot

open Base Database Fleet Session LifeCycle Program Transition RelyGuarantee Progress Erasure Files
  Maintenance Service Interference Stability Conduct Handlers Guarantees Wire Objects Records
  Layering Reading Durability Reliable Restoration

/-- An available file on healthy nodes, and some of its shards, at most `m`, that
may be corrupt or missing. -/
structure Rotten (platform : Platform) (shared : Shared) (file : File) (bad : List Uuid) :
    Prop where
  present : file ∈ shared.db.files
  available : file.status = .available
  healthy : ∀ node ∈ shared.db.nodes, node.status = .healthy
  distinct : bad.Nodup
  listed : ∀ id ∈ bad, ∃ row ∈ shared.db.shardsOf file.id, row.id = id
  few : bad.length ≤ file.parityShards
  intact : ∀ row ∈ shared.db.shardsOf file.id, row.id ∉ bad → Intact platform shared row
  tidy : Tidy shared

section Reached
variable {platform : Platform} {clock : Nat} {labels : List ServiceLabel} {config : ServiceConfig}
  {file : File} {bad : List Uuid}

/-- The rows of a file, of now and of later, are an encoding of the data uploaded. -/
theorem file_encoded (reached : Run (Step (service platform)) (deployed clock) labels config)
    (present : file ∈ config.shared.db.files) :
    ∃ data thread original shards, data ≠ [] ∧ file.sizeBytes = data.length ∧
      file.checksumSha256 = platform.sha256Hex data ∧
      Uploaded config.shared thread original shards ∧
      ∀ shared, WellFormed shared → Uploaded shared thread original shards →
        ∀ rows : List (Shard × StorageNode),
          (rows.map Prod.fst).Subperm (shared.db.shardsOf file.id) →
            Encodes platform data file.dataShards file.parityShards rows := by
  have wf := (service_safe reached).inv
  obtain ⟨thread, original, shards, uploaded, -, same, -⟩ := wf.descends file present
  obtain ⟨upload, began, nonempty, whole, encoded⟩ :=
    (run_recorded reached).coded _ uploaded original shards rfl
  obtain ⟨id, -, -, size, checksum, k, m, -⟩ := same
  have data : original.dataShards = upload.k := by rw [whole]; rfl
  have parity : original.parityShards = upload.m := by rw [whole]; rfl
  refine ⟨upload.data, thread, original, shards, nonempty, ?_, ?_, uploaded, ?_⟩
  · rw [size, whole]
    rfl
  · rw [checksum, whole]
    rfl
  · intro shared wf uploaded rows some
    rw [k, data, m, parity]
    exact rows_encode wf uploaded encoded data parity id some

/-- An available file of a reachable state is that of some data, with all its rows. -/
theorem available_repairable
    (reached : Run (Step (service platform)) (deployed clock) labels config)
    (present : file ∈ config.shared.db.files) (available : file.status = .available)
    (mds : Mds platform.zfec file.dataShards (file.dataShards + file.parityShards)) :
    ∃ data, Repairable platform config.shared.db file data ∧
      file.sizeBytes = data.length ∧ file.checksumSha256 = platform.sha256Hex data := by
  have wf := (service_safe reached).inv
  obtain ⟨data, thread, original, shards, nonempty, size, checksum, uploaded, encodes⟩ :=
    file_encoded reached present
  have checks := run_checked reached file present
  have positive : 1 ≤ file.dataShards := (of_decide_eq_true checks).2.1
  exact ⟨data, ⟨present, available, positive, nonempty, mds, encodes config.shared wf uploaded⟩,
    size, checksum⟩

theorem rows_count {shared : Shared} (wf : WellFormed shared) (present : file ∈ shared.db.files)
    (kept : file.status ≠ .deleted) :
    (shared.db.shardsOf file.id).length = file.dataShards + file.parityShards := by
  obtain ⟨thread, original, shards, -, complete, same, -, whole⟩ := wf.descends file present
  obtain ⟨-, -, -, -, -, k, m, -⟩ := same
  have columns := congrArg List.length (whole kept).1
  have indices := congrArg List.length complete.indices
  simp only [List.length_map, List.length_range] at columns indices
  rw [columns, indices, k, m]

theorem marked_count (wf : WellFormed config.shared) (rotten : Rotten platform config.shared file bad) :
    (marked config.shared.db file.id bad).length = bad.length := by
  have rows : ((config.shared.db.shardsOf file.id).map (·.id)).Nodup :=
    wf.shards_nodup.sublist (List.filter_sublist.map _)
  have ids : ((marked config.shared.db file.id bad).map (·.id)).Perm bad := by
    apply (List.perm_ext_iff_of_nodup ?_ rotten.distinct).mpr
    · intro id
      constructor
      · intro member
        obtain ⟨row, inside, rfl⟩ := List.mem_map.mp member
        exact of_decide_eq_true (List.mem_filter.mp inside).2
      · intro member
        obtain ⟨row, present, rfl⟩ := rotten.listed id member
        exact List.mem_map_of_mem (List.mem_filter.mpr ⟨present, decide_eq_true member⟩)
    · exact rows.sublist (List.filter_sublist.map _)
  rw [← ids.length_eq, List.length_map]

/-- The rows are the marked ones and those that a repair may read. -/
theorem sources_count {shared : Shared} {fileId : Uuid} (wf : WellFormed shared)
    (up : ∀ row ∈ shared.db.shardsOf fileId, row.id ∉ bad →
      ∀ node ∈ shared.db.nodes, node.id = row.nodeId → node.status ≠ .decommissioned) :
    (sources shared.db fileId bad).length + (marked shared.db fileId bad).length =
      (shared.db.shardsOf fileId).length := by
  have every := placed_perm wf (List.Perm.refl
    (shared.db.placed.filter fun row => row.1.fileId = fileId))
  have same : sources shared.db fileId bad =
      (shared.db.placed.filter fun row => row.1.fileId = fileId).filter
        fun row => row.1.id ∉ bad := by
    rw [List.filter_filter]
    apply List.filter_congr
    intro row member
    obtain ⟨stands, registered, named⟩ := placed_shard member
    by_cases mine : row.1.fileId = fileId
    · by_cases listed : row.1.id ∈ bad
      · simp [listed]
      · have status := up row.1 (List.mem_filter.mpr ⟨stands, decide_eq_true mine⟩) listed row.2
          registered named
        simp [mine, listed, status]
    · simp [mine]
  have split := (shared.db.shardsOf fileId).length_eq_length_filter_add fun row => row.id ∈ bad
  have left := (every.filter fun row => row.id ∉ bad).length_eq
  rw [List.filter_map, List.length_map] at left
  unfold marked
  rw [same]
  simp only [Function.comp_def, decide_not] at left split ⊢
  omega

theorem sources_enough (wf : WellFormed config.shared)
    (rotten : Rotten platform config.shared file bad) :
    file.dataShards ≤ (sources config.shared.db file.id bad).length := by
  have kept : file.status ≠ .deleted := by
    rw [rotten.available]
    decide
  have total := rows_count wf rotten.present kept
  have lost := marked_count wf rotten
  have few := rotten.few
  have count : (sources config.shared.db file.id bad).length +
      (marked config.shared.db file.id bad).length =
        (config.shared.db.shardsOf file.id).length := by
    apply sources_count wf
    intro row _ _ node registered _
    rw [rotten.healthy node registered]
    decide
  omega

end Reached

def Up (shared : Shared) (id : Uuid) : Prop :=
  ∃ node ∈ shared.db.nodes, node.id = id ∧ node.status = .healthy

/-- A state the service can be in, where the worker takes the repair on. -/
structure Repairing (platform : Platform) (file : File) (bad : List Uuid)
    (before begun : ServiceConfig) : Prop where
  reached : ∃ clock labels, Run (Step (service platform)) (deployed clock) labels before
  rotten : Rotten platform before.shared file bad
  started : Step (service platform) before (.start .worker (.repairFile file.id bad)) begun

/-- The steps from there on: nothing but the repair and nodes that answer it. -/
abbrev Served (platform : Platform) (before : ServiceConfig) :
    ServiceConfig → ServiceLabel → ServiceConfig → Prop :=
  Guarded (fun config label => Promptly before.shared.flights.length config.shared label)
    (Step (service platform))

structure Healed (platform : Platform) (file : File) (shared : Shared) : Prop where
  count : (shared.db.shardsOf file.id).length = file.dataShards + file.parityShards
  rows : ∀ row ∈ shared.db.shardsOf file.id,
    Intact platform shared row ∧ Up shared row.nodeId

section Repair
variable {platform : Platform} {file : File} {bad : List Uuid} {before begun : ServiceConfig}

theorem repairing_alone (repairing : Repairing platform file bad before begun) :
    Alone platform (.repairFile file.id bad) before begun :=
  ⟨repairing.reached, repairing.rotten.tidy, repairing.started⟩

def returned (platform : Platform) (start : Shared) (file : File) (bad : List Uuid) (thread : Tid)
    (_ : Job) (out : Outcome) (later : Shared) : Prop :=
  thread = .worker → out = .returned bad.length ∧
    Restored platform file.id (Up start) [] later

/-- With a spare node for each bad shard the repair is sure to move them all. -/
theorem repair_moving (distinct : Function.Injective platform.sha256Hex)
    (mds : Mds platform.zfec file.dataShards (file.dataShards + file.parityShards))
    (repairing : Repairing platform file bad before begun)
    (spare : bad.length ≤ (spares before.shared.db file.id).length) :
    Moving (service platform) ((reliable platform before.shared).contract
        (returned platform before.shared file bad)) .worker
      (Answerable before.shared (before.shared.issued.length + bad.length)) begun := by
  obtain ⟨clock, labels, reached⟩ := repairing.reached
  have rotten := repairing.rotten
  have wf := (service_safe reached).inv
  obtain ⟨data, repairable, -⟩ := available_repairable reached rotten.present rotten.available mds
  have count := marked_count wf rotten
  apply alone_moving (repairing_alone repairing)
  · exact fun thread job out later other same => absurd same other
  have frame : Frame platform before.shared file.id (Up before.shared) fun _ _ => True :=
    ⟨fun _ => ⟨fun _ _ _ _ _ _ _ => trivial, fun _ _ _ _ _ _ => trivial⟩, fun _ _ _ _ => trivial,
      fun _ _ _ _ _ _ _ _ _ _ _ _ => trivial⟩
  -- The rows that are not listed are intact, and their nodes are healthy.
  have still : Still platform before.shared.db file.id bad (Up before.shared) true (fun _ => True)
      (before.shared.issued.length + bad.length) before.shared := by
    refine ⟨rfl, fun _ row member => ?_, trivial, by rw [count]⟩
    by_cases listed : row.id ∈ bad
    · exact Or.inl listed
    · right
      refine ⟨rotten.intact row member listed, ?_⟩
      obtain ⟨node, registered, named⟩ :=
        List.mem_map.mp (wf.hosted row (List.mem_filter.mp member).1)
      exact ⟨node, registered, named, rotten.healthy node registered⟩
  apply sure_map
  apply sure_mono (repairFile_sure distinct (Nat.le_refl _) repairable frame
    (fun node registered up => ⟨node, registered, rfl, up⟩) true
    (fun _ => sources_enough wf rotten) (fun _ => count ▸ spare) still)
  rintro out later - ⟨moved, rfl, every, -⟩ -
  obtain ⟨same, restored⟩ := every rfl
  exact ⟨congrArg Outcome.returned (same.trans count), restored⟩

/-- Bit rot is repaired where there are as many spare nodes as bad shards. -/
theorem bitrot_repaired (platform : Platform) (distinct : Function.Injective platform.sha256Hex)
    (file : File) (bad : List Uuid)
    (mds : Mds platform.zfec file.dataShards (file.dataShards + file.parityShards))
    (before begun : ServiceConfig) (repairing : Repairing platform file bad before begun)
    (spare : bad.length ≤ (spares before.shared.db file.id).length)
    (labels : List ServiceLabel) (config : ServiceConfig)
    (run : Run (Served platform before) begun labels config) :
    (∀ out last, Step (service platform) config
        (.finish .worker (.repairFile file.id bad) out) last →
      out = .returned bad.length ∧ Healed platform file last.shared) ∧
    ((∃ out, .finish .worker (.repairFile file.id bad) out ∈ labels) ∨
      (before.shared.issued.length + bad.length ≤ 2 ^ 128 →
        ∃ more last done, Run (Served platform before) config more last ∧
          Step (service platform) last
            (.finish .worker (.repairFile file.id bad) (.returned bad.length)) done)) := by
  have alone := repairing_alone repairing
  have moving := repair_moving distinct mds repairing spare
  have ends : ∀ labels config, Run (Served platform before) begun labels config →
      ∀ out last, Step (service platform) config
        (.finish .worker (.repairFile file.id bad) out) last →
      out = .returned bad.length ∧ Healed platform file last.shared := by
    intro labels config run out last finish
    obtain ⟨still, wf, serves, promised⟩ := alone_ends alone moving run finish
    obtain ⟨same, restored⟩ := promised rfl
    rw [still]
    refine ⟨same, ?_, fun row member => ?_⟩
    · have present : file ∈ config.shared.db.files := by
        rw [serves.files]
        exact repairing.rotten.present
      apply rows_count wf present
      rw [repairing.rotten.available]
      decide
    · have whole := (restored row member).resolve_left List.not_mem_nil
      unfold Up at whole
      rw [← serves.nodes] at whole
      exact whole
  refine ⟨ends labels config run, ?_⟩
  by_cases finished : ∃ out, .finish .worker (.repairFile file.id bad) out ∈ labels
  · exact Or.inl finished
  · right
    intro left
    obtain ⟨more, last, out, done, served, finish⟩ :=
      (alone_returns alone moving left run).resolve_left finished
    obtain ⟨rfl, -⟩ := ends _ last (run_append run served) out _ finish
    exact ⟨more, last, done, served, finish⟩

end Repair

/-! ### Small fleets -/

/-- Some healthy nodes, and the small upload up to its response; then the disk of
the first node loses the first shard. -/
def rotted (nodes : List Uuid) : List ServiceMove :=
  nodes.map (fun id => .env (.register (healthyNode id))) ++
  .start (.api 0) (.upload smallUpload) :: prompts (.api 0) 8 ++ delivers [0, 1] ++
  prompts (.api 0) 4 ++ [.finish (.api 0), .env (.damage 1 2 none)]

/-- No fault leaves an object behind. -/
def lossy : ServiceLabel → Bool
  | .env (.damage _ _ (some _)) => false
  | _ => true

theorem lossy_unplanted {shared : Shared} {label : ServiceLabel} (may : lossy label = true) :
    Unplanted shared label := by
  cases label with
  | env event =>
      cases event with
      | damage node id entry =>
          cases entry with
          | none => trivial
          | some stored => cases may
      | _ => trivial
  | _ => trivial

theorem rotted_pair_driven : (drive (service plain) (fun _ label => lossy label) (deployed 0)
    (rotted [1, 2])).isSome = true := by
  decide +kernel

theorem rotted_triple_driven : (drive (service plain) (fun _ label => lossy label) (deployed 0)
    (rotted [1, 2, 3])).isSome = true := by
  decide +kernel

def rottedPair : ServiceConfig :=
  ((drive (service plain) (fun _ label => lossy label) (deployed 0) (rotted [1, 2])).get
    rotted_pair_driven).2

def rottedTriple : ServiceConfig :=
  ((drive (service plain) (fun _ label => lossy label) (deployed 0) (rotted [1, 2, 3])).get
    rotted_triple_driven).2

def mended (config : ServiceConfig) : ServiceConfig :=
  config.set .worker (.running (.repairFile 1 [2]) (program plain (.repairFile 1 [2])))

def whole (platform : Platform) (shared : Shared) (row : Shard) : Bool :=
  match shared.objects row.nodeId row.id with
  | some stored => decide (stored.digest = platform.sha256Hex stored.data ∧
      platform.sha256Hex stored.data = row.checksumSha256)
  | none => false

theorem whole_intact {platform : Platform} {shared : Shared} {row : Shard}
    (sound : whole platform shared row = true) : Intact platform shared row := by
  unfold whole at sound
  split at sound
  · rename_i stored found
    obtain ⟨digest, checksum⟩ := of_decide_eq_true sound
    refine ⟨stored.data, ?_, checksum⟩
    rw [found, ← digest]
  · cases sound

def rotChecks (config : ServiceConfig) : Bool :=
  (match config.threads .worker with
    | .fresh => true
    | _ => false) &&
  decide (∀ node ∈ config.shared.db.nodes, node.status = .healthy) &&
  (config.shared.db.shardsOf 1).all fun row => row.id = 2 || whole plain config.shared row

theorem rotted_repairing {nodes : List Uuid} {labels : List ServiceLabel} {config : ServiceConfig}
    (driven : drive (service plain) (fun _ label => lossy label) (deployed 0) (rotted nodes) =
      some (labels, config)) (checks : rotChecks config = true) {file : File}
    (present : file ∈ config.shared.db.files) (named : file.id = 1)
    (available : file.status = .available) (parity : file.parityShards = 1)
    (listed : ∃ row ∈ config.shared.db.shardsOf 1, row.id = 2) :
    Repairing plain file [2] config (mended config) := by
  have run := drive_run (service plain) _ (deployed 0) _ _ _ driven
  unfold rotChecks at checks
  rw [Bool.and_eq_true, Bool.and_eq_true] at checks
  obtain ⟨⟨idle, healthy⟩, intact⟩ := checks
  refine ⟨⟨0, labels, guarded_run run⟩, ?_, ?_⟩
  · refine ⟨present, available, of_decide_eq_true healthy, by decide, ?_, ?_, ?_, ?_⟩
    · intro id member
      rw [List.mem_singleton.mp member, named]
      exact listed
    · rw [parity]
      decide
    · intro row member unmarked
      rw [named] at member
      have sound := List.all_eq_true.mp intact row member
      rw [Bool.or_eq_true] at sound
      rcases sound with same | sound
      · exact absurd (List.mem_singleton.mpr (of_decide_eq_true same)) unmarked
      · exact whole_intact sound
    · exact run_tidy (run_mono (fun _ _ _ taken => ⟨taken.1, lossy_unplanted taken.2⟩) run)
  · have free : Program.Idle (service plain) .worker (config.threads .worker) := by
      split at idle
      · rename_i same
        rw [same]
        trivial
      · cases idle
    rw [named]
    exact .start free rfl

theorem bitrot_repaired_triple : ∃ file before begun labels config last,
    Repairing plain file [2] before begun ∧ Run (Served plain before) begun labels config ∧
    Step (service plain) config (.finish .worker (.repairFile file.id [2]) (.returned 1)) last ∧
    Healed plain file last.shared := by
  obtain ⟨file, present, named, available, k, m⟩ : ∃ file ∈ rottedTriple.shared.db.files,
      file.id = 1 ∧ file.status = .available ∧ file.dataShards = 1 ∧ file.parityShards = 1 := by
    decide +kernel
  have repairing : Repairing plain file [2] rottedTriple (mended rottedTriple) :=
    rotted_repairing (Option.some_get rotted_triple_driven).symm (by decide +kernel)
      present named available m (by decide +kernel)
  have spare : [2].length ≤ (spares rottedTriple.shared.db file.id).length := by
    rw [named]
    decide +kernel
  have mds : Mds plain.zfec file.dataShards (file.dataShards + file.parityShards) := by
    rw [k, m]
    exact replication_mds _
  have repaired := bitrot_repaired plain plain_sha256Hex file [2] mds rottedTriple
    (mended rottedTriple) repairing spare
  rcases (repaired [] _ .refl).2 with ⟨out, member⟩ | continues
  · cases member
  · obtain ⟨more, last, done, run, finish⟩ := continues (by decide +kernel)
    exact ⟨file, rottedTriple, mended rottedTriple, more, last, done, repairing, run, finish,
      ((repaired more last run).1 _ _ finish).2⟩

def answering (base : Nat) : ServiceLabel → Bool
  | .act .worker (.await _) replies => replies.all fun reply : Reply => reply.isSome
  | .act .worker _ _ => true
  | .env (.execute handle) => decide (base ≤ handle)
  | _ => false

theorem answering_promptly {base : Nat} {shared : Shared} {label : ServiceLabel}
    (may : answering base label = true) : Promptly base shared label := by
  cases label with
  | start thread job => cases may
  | fail thread => cases may
  | finish thread job out => cases may
  | act thread request answer =>
      cases thread with
      | api _ => cases request <;> cases may
      | worker =>
          cases request with
          | await handles =>
              refine ⟨rfl, fun reply member none => ?_⟩
              have some := List.all_eq_true.mp may reply member
              rw [none] at some
              cases some
          | _ => exact rfl
  | env event =>
      cases event with
      | execute handle => exact fun early => absurd early (Nat.not_lt.mpr (of_decide_eq_true may))
      | _ => cases may

def idled (config : ServiceConfig) : Bool :=
  match config.threads .worker with
  | .running (.repairFile fileId bad) (.ret (.returned count)) =>
      decide (fileId = 1 ∧ bad = [2] ∧ count = 0)
  | _ => false

/-- As many healthy nodes as the file has shards, all of which answer: the repair
finds no target for the lost shard. -/
theorem bitrot_unrepaired : ∃ file before begun labels config last,
    Repairing plain file [2] before begun ∧
    before.shared.db.nodes.length = file.dataShards + file.parityShards ∧
    Run (Served plain before) begun labels config ∧
    Step (service plain) config (.finish .worker (.repairFile file.id [2]) (.returned 0)) last := by
  obtain ⟨file, present, named, available, k, m⟩ : ∃ file ∈ rottedPair.shared.db.files,
      file.id = 1 ∧ file.status = .available ∧ file.dataShards = 1 ∧ file.parityShards = 1 := by
    decide +kernel
  have repairing : Repairing plain file [2] rottedPair (mended rottedPair) :=
    rotted_repairing (Option.some_get rotted_pair_driven).symm (by decide +kernel)
      present named available m (by decide +kernel)
  obtain ⟨labels, config, run, ended⟩ := drive_guarded (service plain)
    (fun _ label => answering rottedPair.shared.flights.length label) (mended rottedPair)
    (prompts .worker 4 ++ delivers [2] ++ prompts .worker 3) (fun _ config => idled config)
    (by decide +kernel)
  have served : Run (Served plain rottedPair) (mended rottedPair) labels config :=
    run_mono (fun _ _ _ taken => ⟨taken.1, answering_promptly taken.2⟩) run
  have nodes : rottedPair.shared.db.nodes.length = 2 := by decide +kernel
  refine ⟨file, rottedPair, mended rottedPair, labels, config, config.set .worker .ended, repairing,
    ?_, served, ?_⟩
  · rw [nodes, k, m]
  · unfold idled at ended
    split at ended
    · rename_i fileId bad count at_ret
      obtain ⟨rfl, rfl, rfl⟩ := of_decide_eq_true ended
      rw [named]
      exact .finish at_ret
    · cases ended

end SecureFileSystem.BitRot

