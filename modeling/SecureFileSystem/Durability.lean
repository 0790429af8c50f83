import SecureFileSystem.Reading
import SecureFileSystem.Guarantees

/-!
Durability of acknowledged uploads: whatever repairs, faults and status changes
a run contains, reading the file gives the uploaded bytes or an error, and gives
the bytes whenever `k` of its rows are intact.
-/

namespace SecureFileSystem.Durability

open Base Database Fleet Session LifeCycle Program Transition Erasure Files Uuid Routers Service
  Stability Conduct Handlers Guarantees Reading

theorem readable_sublist {db : Db} (distinct : (db.nodes.map (·.id)).Nodup) (file : File) :
    ((db.placed.filter fun row => readable file db row.1 row.2).map Prod.fst).Sublist
      (db.shardsOf file.id) := by
  have rows := (List.filter_sublist (p := fun row => readable file db row.1 row.2)
    (l := db.placed)).map Prod.fst |>.trans (placed_sublist distinct)
  have own := rows.filter fun shard : Shard => shard.fileId = file.id
  rw [List.filter_eq_self.mpr ?_] at own
  · exact own
  · intro shard member
    obtain ⟨row, inside, rfl⟩ := List.mem_map.mp member
    have selected := (List.mem_filter.mp inside).2
    simp only [readable, Bool.and_eq_true] at selected
    exact selected.1

/-- Rows of an uploaded file, in any order and in a later state. -/
theorem rows_encode {platform : Platform} {shared : Shared} (wf : WellFormed shared)
    {thread : Tid} {original : File} {fileId : Uuid} {shards : List Shard} {upload : Upload}
    (uploaded : Uploaded shared thread original shards) (encoded : Encoded platform upload shards)
    (data : original.dataShards = upload.k) (parity : original.parityShards = upload.m)
    (named : fileId = original.id) {rows : List (Shard × StorageNode)}
    (some : (rows.map Prod.fst).Subperm (shared.db.shardsOf fileId)) :
    Encodes platform upload.data upload.k upload.m rows := by
  by_cases none : shared.db.shardsOf fileId = []
  · rw [none] at some
    have empty := List.map_eq_nil_iff.mp (List.subperm_nil.mp some)
    subst empty
    exact ⟨List.nodup_nil, by simp, by simp⟩
  obtain ⟨shard, member⟩ := List.exists_mem_of_ne_nil _ none
  obtain ⟨present, owner⟩ := List.mem_filter.mp member
  obtain ⟨row, inside, same⟩ := List.mem_map.mp (wf.shards_owned shard present)
  obtain ⟨other, source, written_rows, uploaded', complete, immutable, columns, -⟩ :=
    wf.descends row inside
  have id : row.id = fileId := same.trans (by simpa using owner)
  -- The row descends from one upload, and an id is uploaded once.
  obtain ⟨-, rfl, rfl⟩ := wf.uploaded_once _ _ _ _ _ _ uploaded uploaded'
    (named.symm.trans (id.symm.trans immutable.1))
  rw [id] at columns
  have indices : shards.map (·.shardIndex) = List.range (upload.k + upload.m) := by
    rw [complete.indices, data, parity]
  obtain ⟨order, same, part⟩ := some
  have copies : (order.map written).Sublist (shards.map written) :=
    (part.map written).trans columns
  have source : ∀ row ∈ rows, ∃ shard ∈ shards, written shard = written row.1 := by
    intro row member
    have listed := same.mem_iff.mpr (List.mem_map_of_mem member)
    exact List.mem_map.mp (copies.subset (List.mem_map_of_mem listed))
  constructor
  case indices =>
    have numbers := copies.map Written.shardIndex
    simp only [List.map_map, Function.comp_def, written] at numbers
    rw [indices] at numbers
    have distinct := (same.map (·.shardIndex)).nodup_iff.mp (List.nodup_range.sublist numbers)
    rw [List.map_map] at distinct
    exact distinct
  case bound =>
    intro row member
    obtain ⟨shard, inside, same⟩ := source row member
    have index : shard.shardIndex = row.1.shardIndex := congrArg Written.shardIndex same
    have bound : shard.shardIndex ∈ List.range (upload.k + upload.m) :=
      indices ▸ List.mem_map_of_mem inside
    exact index ▸ List.mem_range.mp bound
  case checksum =>
    intro row member
    obtain ⟨shard, inside, same⟩ := source row member
    have index : shard.shardIndex = row.1.shardIndex := congrArg Written.shardIndex same
    have checksum : shard.checksumSha256 = row.1.checksumSha256 :=
      congrArg Written.checksumSha256 same
    rw [← checksum, ← index, encoded shard inside]

theorem readable_encodes {platform : Platform} {shared : Shared} (wf : WellFormed shared)
    {thread : Tid} {original file : File} {shards : List Shard} {upload : Upload}
    (uploaded : Uploaded shared thread original shards) (encoded : Encoded platform upload shards)
    (data : original.dataShards = upload.k) (parity : original.parityShards = upload.m)
    (named : file.id = original.id) {rows : List (Shard × StorageNode)}
    (selected : rows.Perm (shared.db.placed.filter fun row =>
      readable file shared.db row.1 row.2)) :
    Encodes platform upload.data upload.k upload.m rows := by
  apply rows_encode wf uploaded encoded data parity named
  exact (selected.map Prod.fst).subperm.trans (readable_sublist wf.nodes_nodup file).subperm

/-- Any copy of the file's row reads back as `data`: never as anything else, and
without an error whenever as many rows as the code needs are intact. -/
structure Recoverable (platform : Platform) (shared : Shared) (file : File) (data : Bytes) :
    Prop where
  faithful : (readFile platform file).Ends fun out => ∀ bytes, out = .ok bytes → bytes = data
  returns : ∀ world : World,
    (∀ condition, (world.rows condition).Perm
      (shared.db.placed.filter fun row => condition shared.db row.1 row.2)) →
    file.dataShards ≤ (world.rows (readable file)).countP
      (intact platform world data file.dataShards file.parityShards) →
    Settles world (readFile platform file) (.ok data)

theorem upload_durable (platform : Platform) (distinct : Function.Injective platform.sha256Hex)
    (clock : Nat) (labels : List ServiceLabel) (config : ServiceConfig)
    (run : Run (Step (service platform)) (deployed clock) labels config)
    (thread : Tid) (request : UploadRequest) (response : Response)
    (acknowledged : Label.finish thread (.upload request) (.response response) ∈ labels)
    (success : response.status = 201) (positive : 1 ≤ request.settings.shardDataCount)
    (mds : Mds platform.zfec request.settings.shardDataCount
      (request.settings.shardDataCount + request.settings.shardParityCount)) :
    ∃ filename contentType data uploaded states began,
      request.upload = some (filename, contentType, data) ∧
      response.body = .fileOut uploaded states ∧
      (∀ file ∈ config.shared.db.files, file.id = uploaded.id → sameFile file
        (uploadedFile platform (uploadOf request filename contentType data) uploaded.id began)) ∧
      (∀ file, sameFile file
        (uploadedFile platform (uploadOf request filename contentType data) uploaded.id began) →
        Recoverable platform config.shared file data) ∧
      ∀ reader download answer bytes name after,
        uuidOf platform.unicode download.fileId = some uploaded.id →
        Step (service platform) config (.finish reader (.download download) (.response answer))
          after → answer.body = .content bytes name → bytes = data := by
  obtain ⟨first, second, left, right, -, start, finished, rest⟩ := run_member run acknowledged
  obtain ⟨same, promise⟩ := service_step start finished
  obtain ⟨filename, contentType, data, uploaded, states, began, shards, given, nonempty, body,
    logged, encoded⟩ := promise success
  -- The log keeps the upload, whatever happens after the 201.
  have kept : Uploaded config.shared thread
      (uploadedFile platform (uploadOf request filename contentType data) uploaded.id began)
      shards := by
    refine run_life (fun _ _ _ _ life => life_log life) (.next start finished) rest ?_
    rw [same]
    exact logged
  have wf := (service_safe run).inv
  refine ⟨filename, contentType, data, uploaded, states, began, given, body, ?_, ?_, ?_⟩
  · intro file present named
    obtain ⟨other, original, rows, uploaded', -, immutable, -⟩ := wf.descends file present
    obtain ⟨-, rfl, -⟩ := wf.uploaded_once _ _ _ _ _ _ kept uploaded'
      (named.symm.trans immutable.1)
    exact immutable
  · intro file copy
    obtain ⟨id, -, -, size, checksum, dataShards, parityShards, -⟩ := copy
    refine ⟨?_, fun world rows enough => ?_⟩
    · refine Prog.ends_mono (readFile_ends file) fun out checked bytes read => ?_
      exact distinct ((checked bytes read).trans checksum)
    · have encodes := readable_encodes wf kept encoded rfl rfl id (rows (readable file))
      rw [dataShards, parityShards] at enough
      exact readFile_settles distinct mds positive file dataShards parityShards size checksum
        encodes enough
  · intro reader download answer bytes name after known served content
    obtain ⟨-, audited⟩ := service_step run served
    obtain ⟨file, found, ⟨uploader, original, rows, uploaded', immutable⟩, checksum, -⟩ :=
      audited.content bytes name content
    have id : file.id = uploaded.id := Option.some.inj (found.symm.trans known)
    obtain ⟨-, rfl, -⟩ := wf.uploaded_once _ _ _ _ _ _ kept uploaded'
      (id.symm.trans immutable.1)
    exact distinct (checksum.trans immutable.2.2.2.2.1)

def repairedUpload : List ServiceMove :=
  smallUploaded ++ [.start .worker (.repairFile 1 [2])] ++ prompts .worker 4 ++ delivers [2] ++
  prompts .worker 5 ++ delivers [3] ++ prompts .worker 2

def acknowledges : ServiceLabel → Bool
  | .finish _ (.upload request) (.response ⟨201, .fileOut file _⟩) =>
      decide (file.id = 1 ∧ request.settings.shardDataCount = 1)
  | _ => false

theorem upload_durable_repaired : ∃ labels config, ∃ file ∈ config.shared.db.files, ∃ data,
    Run (Step (service plain)) (deployed 0) labels config ∧
    (config.shared.db.shardsOf file.id).map (·.nodeId) = [3, 2] ∧
    Recoverable plain config.shared file data := by
  obtain ⟨labels, config, run, passed⟩ := drive_reaches (service plain) (deployed 0) repairedUpload
    (fun labels config => labels.any acknowledges && config.shared.db.files.any fun file =>
      decide (file.id = 1 ∧ (config.shared.db.shardsOf file.id).map (·.nodeId) = [3, 2]))
    (by decide +kernel)
  rw [Bool.and_eq_true] at passed
  obtain ⟨label, member, success⟩ := List.any_eq_true.mp passed.1
  obtain ⟨file, present, facts⟩ := List.any_eq_true.mp passed.2
  obtain ⟨one, nodes⟩ := of_decide_eq_true facts
  unfold acknowledges at success
  split at success
  · rename_i thread request copy states
    obtain ⟨named, count⟩ := of_decide_eq_true success
    obtain ⟨_, _, data, uploaded, _, _, -, body, stored, recoverable, -⟩ :=
      upload_durable plain plain_sha256Hex 0 labels config run thread request _ member rfl
        (by rw [count]) (by rw [count]; exact replication_mds _)
    cases body
    exact ⟨labels, config, file, present, data, run, nodes,
      recoverable file (stored file present (one.trans named.symm))⟩
  · cases success

end SecureFileSystem.Durability
