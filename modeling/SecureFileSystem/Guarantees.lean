import SecureFileSystem.Upkeep

/-!
All jobs together: every interleaving of the service keeps the catalogue well
formed, and every response keeps its promise. The placement of available files
follows.
-/

namespace SecureFileSystem.Guarantees

open Base Database Session LifeCycle Program Transition RelyGuarantee Service Interference
  Stability Conduct Handlers Upkeep

variable {platform : Platform}

theorem program_keeps (thread : Tid) (job : Job) (state : Shared)
    (may : starts thread job = true) :
    Keeps platform (Promise platform) thread (Promise platform thread job) (program platform job)
      state := by
  have plain : ∀ {Mid : Type} (count : Mid → Outcome) {prog : Async Mid},
      (∀ out later, Promise platform thread job (count out) later) →
      Keeps platform (Promise platform) thread (fun _ _ => True) prog state →
      Keeps platform (Promise platform) thread (Promise platform thread job)
        (prog.bind fun out => .ret (count out)) state :=
    fun _ _ nothing safe => safe_map (safe_mono safe fun out later _ _ => nothing out later)
  have worker : job.ofWorker = true → thread = .worker := by
    intro kind
    cases thread with
    | worker => rfl
    | api request => simp [starts, kind] at may
  cases job with
  | upload request => exact safe_map (upload_handler_keeps request)
  | createLink request => exact safe_map (createLink_keeps request)
  | download request => exact safe_map (downloadFile_keeps request)
  | listFiles userId limit offset =>
      exact plain _ (fun _ _ => trivial) (quiet_keeps (listFiles_quiet userId limit offset))
  | getFile userId fileId =>
      exact plain _ (fun _ _ => trivial) (quiet_keeps (getFile_handler_quiet userId fileId))
  | deleteFile userId fileId ipAddress =>
      exact plain _ (fun _ _ => trivial) (deleteFile_keeps userId fileId ipAddress)
  | checkNodeHealth settings failures =>
      exact plain _ (fun _ _ => trivial) (checkNodeHealth_keeps settings failures)
  | gcStaleUploads settings => exact plain _ (fun _ _ => trivial) (gcStaleUploads_keeps settings)
  | gcDeletedFiles => exact plain _ (fun _ _ => trivial) gcDeletedFiles_keeps
  | repairLostShards settings =>
      obtain rfl := worker rfl
      exact plain counted (fun _ _ => trivial) (repairLostShards_keeps settings)
  | scrub settings =>
      obtain rfl := worker rfl
      exact plain counted (fun _ _ => trivial) (scrub_keeps settings)
  | repairFile fileId bad =>
      obtain rfl := worker rfl
      exact plain counted (fun _ _ => trivial) (repairFile_keeps fileId bad)

theorem deployed_wellFormed (clock : Nat) : WellFormed (deployed clock).shared := by
  constructor
  case uploaded_once => exact nofun
  all_goals first
    | exact List.nodup_nil
    | exact nofun

/-- Every reachable state of the service is well formed, with every thread on course. -/
theorem service_safe {clock : Nat} {labels : List ServiceLabel} {config : ServiceConfig}
    (run : Run (Step (service platform)) (deployed clock) labels config) :
    AllSafe (service platform) (contract (Promise platform)) config := by
  have start : AllSafe (service platform) (contract (Promise platform)) (deployed clock) :=
    ⟨deployed_wellFormed clock, nofun⟩
  refine run_safe (composes platform (Promise platform)) ?_ start
    (run_mono (fun before label after taken => ⟨taken, trivial⟩) run)
  exact fun thread job state _ may _ => program_keeps thread job state may

/-- What the next step of a reachable state does. -/
theorem service_step {clock : Nat} {labels : List ServiceLabel} {before after : ServiceConfig}
    {label : ServiceLabel} (run : Run (Step (service platform)) (deployed clock) labels before)
    (taken : Step (service platform) before label after) :
    Kept (contract (Promise platform)) before label after :=
  (step_safe (composes platform (Promise platform))
    (fun thread job state _ may _ => program_keeps thread job state may) (service_safe run) taken
    trivial).2

theorem service_life {clock : Nat} {labels : List ServiceLabel} {before after : ServiceConfig}
    {label : ServiceLabel} (run : Run (Step (service platform)) (deployed clock) labels before)
    (taken : Step (service platform) before label after) :
    ∃ thread, Life thread before.shared after.shared := by
  have kept := service_step run taken
  have still : after.shared = before.shared → ∃ thread, Life thread before.shared after.shared :=
    fun same => ⟨.worker, same ▸ .quiet ⟨rfl, rfl, rfl, rfl, id, fun _ member => member⟩⟩
  cases taken with
  | start _ _ => exact still rfl
  | act _ _ => exact ⟨_, kept⟩
  | fail _ => exact still rfl
  | finish _ => exact still rfl
  | @env event shared done => exact ⟨.worker, .quiet (environment_undisturbed event done)⟩

/-- What every step of every thread keeps holds ever after. -/
theorem run_life {holds : Shared → Prop} {clock : Nat} {first second : List ServiceLabel}
    {before after : ServiceConfig}
    (kept : ∀ thread before after, WellFormed before → Life thread before after → holds before →
      holds after)
    (run : Run (Step (service platform)) (deployed clock) first before)
    (rest : Run (Step (service platform)) before second after) (start : holds before.shared) :
    holds after.shared := by
  induction rest with
  | refl => exact start
  | next taken last ih =>
      have reached := run_append run taken
      obtain ⟨thread, life⟩ := service_life reached last
      exact kept thread _ _ (service_safe reached).inv life ih

theorem life_commit {thread : Tid} {before after : Shared} {writes : List Write}
    (done : exec thread before (.commit writes) () = some after) (life : Life thread before after) :
    ∃ transaction db, writes = transaction.writes ∧ Enabled thread before transaction ∧
      before.db.commit transaction.writes = some db ∧
      after = recorded before thread transaction db := by
  have logged : after.log = before.log ++ [(thread, writes)] := exec_log done
  cases life with
  | quiet undisturbed =>
      rw [undisturbed.log] at logged
      simp at logged
  | draw id fresh same =>
      rw [same] at logged
      simp at logged
  | commit transaction db enabled done same =>
      rw [same] at logged
      have entries := List.append_cancel_left logged
      simp only [List.cons.injEq, Prod.mk.injEq, true_and, and_true] at entries
      exact ⟨transaction, db, entries.symm, enabled, done, same⟩

/-- A commit in a run is the commit of an enabled transaction. -/
theorem service_commit {clock : Nat} {labels : List ServiceLabel} {before after : ServiceConfig}
    {thread : Tid} {writes : List Write}
    (run : Run (Step (service platform)) (deployed clock) labels before)
    (taken : Step (service platform) before (.act thread (.commit writes) ()) after) :
    ∃ transaction db, writes = transaction.writes ∧ Enabled thread before.shared transaction ∧
      before.shared.db.commit transaction.writes = some db ∧
      after.shared = recorded before.shared thread transaction db := by
  have life : Life thread before.shared after.shared := service_step run taken
  cases taken with
  | act at_op done => exact life_commit done life

/-- Exactly the rows of the upload, one for each block, on distinct nodes. -/
structure WellPlaced (shared : Shared) (file : File) : Prop where
  count : (shared.db.shardsOf file.id).length = file.dataShards + file.parityShards
  indices : (shared.db.shardsOf file.id).map (·.shardIndex) =
    List.range (file.dataShards + file.parityShards)
  kinds : ∀ shard ∈ shared.db.shardsOf file.id,
    shard.kind = .data ↔ shard.shardIndex < file.dataShards
  nodes : ((shared.db.shardsOf file.id).map (·.nodeId)).Nodup
  columns : ∃ thread original shards, Uploaded shared thread original shards ∧
    original.id = file.id ∧ (shared.db.shardsOf file.id).map written = shards.map written

theorem descends_placed {shared : Shared} (wf : WellFormed shared) {file : File}
    (present : file ∈ shared.db.files) (standing : file.status ≠ .deleted) :
    WellPlaced shared file := by
  obtain ⟨thread, original, shards, uploaded, complete, same, -, whole⟩ :=
    wf.descends file present
  obtain ⟨columns, nodes⟩ := whole standing
  have data : file.dataShards = original.dataShards := same.2.2.2.2.2.1
  have parity : file.parityShards = original.parityShards := same.2.2.2.2.2.2.1
  have indices : (shared.db.shardsOf file.id).map (·.shardIndex) = shards.map (·.shardIndex) := by
    simpa [List.map_map, Function.comp_def, written] using
      congrArg (List.map Written.shardIndex) columns
  refine ⟨?_, ?_, ?_, nodes, ⟨thread, original, shards, uploaded, same.1.symm, columns⟩⟩
  · have lengths := congrArg List.length (indices.trans complete.indices)
    simpa [data, parity] using lengths
  · rw [indices, complete.indices, data, parity]
  · intro shard member
    have listed : written shard ∈ shards.map written :=
      columns ▸ List.mem_map_of_mem member
    obtain ⟨source, inside, equal⟩ := List.mem_map.mp listed
    have kind : source.kind = shard.kind := congrArg Written.kind equal
    have index : source.shardIndex = shard.shardIndex := congrArg Written.shardIndex equal
    rw [← kind, complete.kinds source inside, index, data]
    split <;> simp_all

/-! ### Available files -/

/-- Whatever the uploads, deletes, garbage collections and repairs have done so
far, an available file has exactly its rows, on distinct nodes. -/
theorem available_placed (platform : Platform) (clock : Nat) (labels : List ServiceLabel)
    (config : ServiceConfig) (run : Run (Step (service platform)) (deployed clock) labels config)
    (file : File) (present : file ∈ config.shared.db.files)
    (available : file.status = .available) : WellPlaced config.shared file :=
  descends_placed (service_safe run).inv present (by simp [available])

/-- One row is moved from the first node to the third. -/
def repairedOnce : List ServiceMove :=
  smallStart ++ delivers [0, 1] ++ prompts (.api 0) 2 ++
  [.start .worker (.repairFile 1 [2])] ++ prompts .worker 4 ++ delivers [2] ++ prompts .worker 5 ++
  delivers [3] ++ prompts .worker 2

theorem available_placed_repaired : ∃ labels config, ∃ file ∈ config.shared.db.files,
    Run (Step (service plain)) (deployed 0) labels config ∧
    (config.shared.db.shardsOf file.id).map (·.nodeId) = [3, 2] ∧
    WellPlaced config.shared file := by
  obtain ⟨labels, config, run, passed⟩ := drive_reaches (service plain) (deployed 0) repairedOnce
    (fun _ config => config.shared.db.files.any fun file => decide (file.status = .available ∧
      (config.shared.db.shardsOf file.id).map (·.nodeId) = [3, 2])) (by decide +kernel)
  obtain ⟨file, present, facts⟩ := List.any_eq_true.mp passed
  obtain ⟨available, nodes⟩ := of_decide_eq_true facts
  exact ⟨labels, config, file, present, run, nodes,
    available_placed plain 0 labels config run file present available⟩

end SecureFileSystem.Guarantees
