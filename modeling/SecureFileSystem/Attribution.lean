import SecureFileSystem.Guarantees

/-!
Which statements each job sends to the database. A write found in a run is
thereby put down to the kind of job that can have made it.
-/

namespace SecureFileSystem.Attribution

open Base Database Fleet Session Program Transition RelyGuarantee Erasure Files
  SecureFileSystem.Configuration Maintenance Routers Service Interference Conduct Guarantees

def mayWrite : Job → Write → Prop
  | .upload _, .insertFile _ | .upload _, .insertShards _ | .upload _, .setAvailable _
  | .upload _, .deleteFile _ | .upload _, .audit _ => True
  | .createLink _, .audit _ | .download _, .audit _ => True
  | .deleteFile _ _ _, .setDeleted _ _ _ | .deleteFile _ _ _, .audit _
  | .deleteFile _ _ _, .deleteShards _ => True
  | .checkNodeHealth _ _, .setLastSeen _ _ | .checkNodeHealth _ _, .setStatus _ _ => True
  | .gcStaleUploads _, .deleteFile _ => True
  | .gcDeletedFiles, .deleteShards _ => True
  | .repairLostShards _, .repoint _ _ _ | .scrub _, .repoint _ _ _
  | .repairFile _ _, .repoint _ _ _ => True
  | _, _ => False

def Within (kinds : Write → Prop) : Op → Prop
  | .commit writes => ∀ write ∈ writes, kinds write
  | _ => True

variable {platform : Platform} {kinds : Write → Prop} {Mid Out : Type}

theorem quiet_within {prog : Async Out} (only : prog.Only quiet) : prog.Only (Within kinds) := by
  apply Prog.only_mono only
  intro request calm
  cases request with
  | commit writes => exact calm.elim
  | _ => trivial

theorem result_within {first : Async Mid} {change : Mid → Out} (only : first.Only (Within kinds)) :
    (first.bind fun out => .ret (change out)).Only (Within kinds) :=
  Prog.only_bind only fun _ => trivial

theorem op_within (request : Op) {next : Res request → Async Out} (may : Within kinds request)
    (rest : ∀ answer, (next answer).Only (Within kinds)) :
    ((Prog.perform request).bind next).Only (Within kinds) := ⟨may, rest⟩

theorem commit_within {writes : List Write} {next : Unit → Async Out}
    (may : ∀ write ∈ writes, kinds write) (rest : (next ()).Only (Within kinds)) :
    ((commit writes).bind next).Only (Within kinds) := ⟨may, fun _ => rest⟩

theorem drawIds_within (count : Nat) : (drawIds count).Only (Within kinds) := by
  induction count with
  | zero => trivial
  | succ count ih =>
      apply op_within .uuid4 trivial
      intro id
      exact result_within ih

section Uploads
variable (inserts : ∀ file shards, kinds (.insertFile file) ∧ kinds (.insertShards shards))
  (publishes : ∀ fileId event, kinds (.setAvailable fileId) ∧ kinds (.audit event))
  (retracts : ∀ fileId, kinds (.deleteFile fileId))

include retracts in
theorem rollBackUpload_within (fileId : Uuid) (shards : List Shard) :
    (rollBackUpload fileId shards).Only (Within kinds) := by
  apply Prog.only_bind (quiet_within (gather_quiet _))
  intro replies
  split
  · apply commit_within
    · simpa using retracts fileId
    · trivial
  · trivial

include inserts publishes retracts in
theorem uploadFile_within (began : Nat) (upload : Upload) :
    (Files.uploadFile platform began upload).Only (Within kinds) := by
  unfold Files.uploadFile
  split
  · trivial
  apply op_within (.selectNodes _) trivial
  intro candidates
  split
  · trivial
  apply op_within (.shuffle _) trivial
  intro order
  dsimp only
  split
  · trivial
  apply op_within .uuid4 trivial
  intro fileId
  apply Prog.only_bind (drawIds_within _)
  intro ids
  apply commit_within
  · simpa using inserts _ _
  apply Prog.only_bind (quiet_within (gather_quiet _))
  intro results
  split
  · apply commit_within
    · simpa [record] using publishes _ _
    · trivial
  · exact result_within (rollBackUpload_within retracts _ _)

include inserts publishes retracts in
theorem upload_handler_within (request : UploadRequest) :
    (Routers.uploadFile platform request).Only (Within kinds) := by
  apply op_within .now trivial
  intro began
  split
  · trivial
  split
  · trivial
  split
  · trivial
  split
  · trivial
  apply Prog.only_bind (uploadFile_within inserts publishes retracts began _)
  intro uploaded
  cases uploaded with
  | error error => cases error <;> trivial
  | ok file =>
      apply Prog.only_bind (quiet_within (getFile_quiet file.id))
      intro found
      cases found with
      | none => trivial
      | some refreshed => exact result_within (quiet_within (availability_quiet _))

end Uploads

section Requests
variable (audits : ∀ event, kinds (.audit event))

include audits in
theorem createLink_within (request : LinkRequest) :
    (createLink platform request).Only (Within kinds) := by
  unfold createLink
  split
  · trivial
  split
  · trivial
  apply op_within (.selectFiles _) trivial
  intro rows
  dsimp only [Prog.ret_bind, Prog.pure_eq]
  cases rows.head? with
  | none => trivial
  | some file =>
      apply op_within .now trivial
      intro time
      apply commit_within
      · simpa [record] using audits _
      · split <;> trivial

include audits in
theorem deny_within (request : DownloadRequest) (loaded : Option File) (refusal : Response) :
    (deny platform request loaded refusal).Only (Within kinds) := by
  have recorded : ∀ found, ((commit [record .download_denied found none none
      request.ipAddress]).bind fun _ => (.ret refusal : Async Response)).Only (Within kinds) := by
    intro found
    apply commit_within
    · simpa [record] using audits _
    · trivial
  unfold deny
  cases Uuid.uuidOf platform.unicode request.fileId with
  | none => exact recorded none
  | some candidate =>
      dsimp only [Prog.pure_eq, Prog.bind_eq]
      split
      · exact recorded _
      · exact ⟨trivial, fun rows => recorded (rows.head?.map fun _ => candidate)⟩

include audits in
theorem downloadFile_within (request : DownloadRequest) :
    (downloadFile platform request).Only (Within kinds) := by
  unfold downloadFile
  split
  · trivial
  split
  · trivial
  apply op_within .now trivial
  intro time
  unfold checkLink
  split
  · exact deny_within audits _ _ _
  · apply Prog.only_bind (quiet_within (getFile_quiet _))
    intro found
    cases found with
    | none => exact deny_within audits _ _ _
    | some file =>
        dsimp only [Prog.pure_eq, Prog.bind_eq]
        split
        · exact deny_within audits _ _ _
        split
        · exact deny_within audits _ _ _
        apply Prog.only_bind (quiet_within (readFile_quiet file))
        intro read
        cases read with
        | error error => cases error <;> trivial
        | ok data =>
            apply commit_within
            · simpa [record] using audits _
            · trivial

end Requests

section Removal
variable (discards : ∀ ids, kinds (.deleteShards ids))

include discards in
theorem removeDeletedShards_within (file : File) :
    (removeDeletedShards file).Only (Within kinds) := by
  apply op_within (.selectPlaced _) trivial
  intro placed
  apply Prog.only_bind (quiet_within (gather_quiet _))
  intro replies
  apply commit_within
  · simpa using discards _
  · trivial

include discards in
theorem gcPendingFiles_within (files : List File) :
    (gcPendingFiles files).Only (Within kinds) := by
  induction files with
  | nil => trivial
  | cons file rest ih => exact Prog.only_bind (removeDeletedShards_within discards file) fun _ => ih

theorem deleteFile_within (revokes : ∀ fileId deletedAt linkVersion,
      kinds (.setDeleted fileId deletedAt linkVersion)) (audits : ∀ event, kinds (.audit event))
    (discards : ∀ ids, kinds (.deleteShards ids)) (userId fileId : Uuid)
    (ipAddress : Option Text) :
    (Routers.deleteFile userId fileId ipAddress).Only (Within kinds) := by
  apply op_within (.selectFiles _) trivial
  intro rows
  dsimp only [Prog.ret_bind, Prog.pure_eq]
  cases rows.head? with
  | none => trivial
  | some file =>
      apply op_within .now trivial
      intro deletedAt
      apply commit_within
      · simpa [record] using ⟨revokes _ _ _, audits _⟩
      · exact result_within (result_within (removeDeletedShards_within discards file))

end Removal

theorem gcStaleFiles_within (retracts : ∀ fileId, kinds (.deleteFile fileId)) (files : List File) :
    (gcStaleFiles files).Only (Within kinds) := by
  induction files with
  | nil => trivial
  | cons file rest ih =>
      apply op_within (.selectPlaced _) trivial
      intro placed
      apply Prog.only_bind (quiet_within (gather_quiet _))
      intro results
      split
      · apply commit_within
        · simpa using retracts file.id
        · exact ih
      · exact ih

section Repair
variable (repoints : ∀ old new node, kinds (.repoint old new node))

include repoints in
theorem repairShards_within (work : List ((Shard × StorageNode) × Bytes × StorageNode)) :
    (repairShards platform work).Only (Within kinds) := by
  induction work with
  | nil => trivial
  | cons one rest ih =>
      unfold repairShards
      split
      · exact ih
      apply op_within .uuid4 trivial
      intro newId
      apply Prog.only_bind (quiet_within (call_quiet _ _))
      intro reply
      split
      · apply commit_within
        · simpa using repoints _ _ _
        apply Prog.only_bind (quiet_within (call_quiet _ _))
        exact fun _ => result_within ih
      · exact ih

include repoints in
theorem repairFile_within (fileId : Uuid) (bad : List Uuid) :
    (repairFile platform fileId bad).Only (Within kinds) := by
  apply Prog.only_bind (quiet_within (getFile_quiet fileId))
  intro found
  cases found with
  | none => trivial
  | some file =>
      dsimp only [Prog.pure_eq, Prog.bind_eq]
      split
      · trivial
      apply op_within (.selectPlaced _) trivial
      intro placed
      apply Prog.only_bind (quiet_within (shardCandidates_quiet _ _ _))
      intro good
      apply Prog.only_bind (quiet_within (fetchRounds_quiet _ _ _ _))
      intro blocks
      split
      · trivial
      apply op_within (.selectNodes _) trivial
      intro healthy
      apply op_within (.shuffle _) trivial
      intro targets
      split
      · trivial
      · exact result_within (repairShards_within repoints _)

include repoints in
theorem repairFiles_within (groups : ByFile) :
    (repairFiles platform groups).Only (Within kinds) := by
  induction groups with
  | nil => trivial
  | cons group rest ih =>
      apply Prog.only_bind (repairFile_within repoints _ _)
      intro outcome
      cases outcome with
      | error error => trivial
      | ok repaired =>
          apply Prog.only_bind ih
          intro others
          cases others <;> trivial

end Repair

theorem scrubShards_quiet (bad : ByFile) (rows : List (Shard × StorageNode)) :
    (scrubShards platform bad rows).Only quiet := by
  induction rows generalizing bad with
  | nil => trivial
  | cons row rest ih =>
      apply Prog.only_bind (call_quiet _ _)
      intro reply
      split
      · exact ih _
      · exact ih _
      · exact ih _
      · split
        · exact ih _
        · exact ih _

theorem probedAll_within (seen : ∀ node time, kinds (.setLastSeen node time))
    (statuses : ∀ node status, kinds (.setStatus node status)) (threshold time : Nat)
    (failures : Failures) (rows : List (StorageNode × Bool)) :
    ∀ write ∈ (probedAll threshold time failures rows).2, kinds write := by
  induction rows generalizing failures with
  | nil => exact fun write member => absurd member List.not_mem_nil
  | cons row rest ih =>
      intro write member
      rcases List.mem_append.mp member with here | later
      · unfold probed at here
        split at here
        · rcases List.mem_cons.mp here with rfl | more
          · exact seen _ _
          · split at more
            · rw [List.mem_singleton.mp more]
              exact statuses _ _
            · exact absurd more List.not_mem_nil
        · dsimp only at here
          split at here
          · rw [List.mem_singleton.mp here]
            exact statuses _ _
          · exact absurd here List.not_mem_nil
      · exact ih _ write later

/-- Every job keeps to its kinds of statements. -/
theorem program_within (job : Job) : (program platform job).Only (Within (mayWrite job)) := by
  cases job with
  | upload request =>
      exact result_within (upload_handler_within (fun _ _ => ⟨trivial, trivial⟩)
        (fun _ _ => ⟨trivial, trivial⟩) (fun _ => trivial) request)
  | listFiles userId limit offset =>
      exact result_within (quiet_within (Handlers.listFiles_quiet userId limit offset))
  | getFile userId fileId =>
      exact result_within (quiet_within (Handlers.getFile_handler_quiet userId fileId))
  | createLink request => exact result_within (createLink_within (fun _ => trivial) request)
  | deleteFile userId fileId ip =>
      exact result_within (deleteFile_within (fun _ _ _ => trivial) (fun _ => trivial)
        (fun _ => trivial) userId fileId ip)
  | download request => exact result_within (downloadFile_within (fun _ => trivial) request)
  | checkNodeHealth settings failures =>
      refine ⟨trivial, fun nodes => ⟨trivial, fun handles => ⟨trivial, fun replies => ⟨trivial,
        fun time => ⟨?_, fun _ => trivial⟩⟩⟩⟩⟩
      exact probedAll_within (fun _ _ => trivial) (fun _ _ => trivial) _ _ _ _
  | gcStaleUploads settings =>
      refine ⟨trivial, fun time => ⟨trivial, fun stale => ?_⟩⟩
      exact result_within (gcStaleFiles_within (fun _ => trivial) stale)
  | gcDeletedFiles =>
      refine ⟨trivial, fun pending => ?_⟩
      exact result_within (gcPendingFiles_within (fun _ => trivial) pending)
  | repairLostShards settings =>
      refine ⟨trivial, fun time => ⟨trivial, fun rows => ?_⟩⟩
      exact result_within (repairFiles_within (fun _ _ _ => trivial) _)
  | scrub settings =>
      apply result_within
      unfold scrub
      split
      · trivial
      apply op_within (.selectPlaced _) trivial
      intro rows
      apply Prog.only_bind (quiet_within (scrubShards_quiet _ _))
      exact fun bad => repairFiles_within (fun _ _ _ => trivial) bad
  | repairFile fileId bad => exact result_within (repairFile_within (fun _ _ _ => trivial) fileId bad)

theorem running_within {clock : Nat} {labels : List ServiceLabel} {config : ServiceConfig}
    (run : Run (Step (service platform)) (deployed clock) labels config) {thread : Tid} {job : Job}
    {rest : Async Outcome} (running : config.threads thread = .running job rest) :
    rest.Only (Within (mayWrite job)) :=
  run_programs (fun _ job rest => rest.Only (Within (mayWrite job)))
    (fun _ job _ => program_within job) (fun _ _ _ _ answer only => only.2 answer) run
    (fun _ _ _ fresh => by cases fresh) thread job rest running

end SecureFileSystem.Attribution
