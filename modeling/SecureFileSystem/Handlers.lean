import SecureFileSystem.Conduct

/-!
What every request handler keeps and what its response promises: bytes and
links only after their audit row, refusals too, and a 201 for an upload only
when its rows carry the checksums of its blocks.
-/

namespace SecureFileSystem.Handlers

open Base Database Fleet Session LifeCycle Program RelyGuarantee Erasure Files Uuid SecureFileSystem.Configuration
  Signing TextCodec Routers Service Interference Stability Conduct

/-- The thread has committed one audit row, with these columns. -/
def AuditRow (thread : Tid) (eventType : AuditEventType) (fileId actorUserId : Option Uuid)
    (ttlSeconds : Option Nat) (ipAddress : Option Text) (shared : Shared) : Prop :=
  ∃ event, (thread, [.audit event]) ∈ shared.log ∧ event.eventType = eventType ∧
    event.fileId = fileId ∧ event.actorUserId = actorUserId ∧ event.ttlSeconds = ttlSeconds ∧
    event.ipAddress = ipAddress

structure Served (platform : Platform) (thread : Tid) (request : DownloadRequest)
    (response : Response) (shared : Shared) : Prop where
  content : ∀ data filename, response.body = .content data filename → ∃ file : File,
    uuidOf platform.unicode request.fileId = some file.id ∧ Origin file shared ∧
    platform.sha256Hex data = file.checksumSha256 ∧
    AuditRow thread .download_success (some file.id) none none request.ipAddress shared
  refused : response.status = 403 ∨ response.status = 404 → ∃ found,
    AuditRow thread .download_denied found none none request.ipAddress shared

def Issued (thread : Tid) (request : LinkRequest) (response : Response)
    (shared : Shared) : Prop :=
  ∀ out, response.body = .link out → ∃ linkVersion,
    out.fileId = uuidText request.fileId ∧ out.v = decimal linkVersion ∧
    Linked request.fileId linkVersion shared ∧
    AuditRow thread .link_generated (some request.fileId) (some request.userId)
      (some request.ttlSeconds.toNat) request.ipAddress shared

def uploadOf (request : UploadRequest) (filename contentType : Text) (data : Bytes) : Upload where
  ownerId := request.userId
  filename := filename
  contentType := contentType
  data := data
  k := request.settings.shardDataCount
  m := request.settings.shardParityCount
  ipAddress := request.ipAddress

/-- The rows of an upload carry the checksums of the blocks of its data. -/
def Encoded (platform : Platform) (upload : Upload) (shards : List Shard) : Prop :=
  ∀ shard ∈ shards, shard.checksumSha256 =
    platform.sha256Hex (codeBlock platform.zfec upload.data upload.k upload.m shard.shardIndex)

def Stored (platform : Platform) (thread : Tid) (request : UploadRequest) (response : Response)
    (shared : Shared) : Prop :=
  response.status = 201 → ∃ filename contentType data file states began shards,
    request.upload = some (filename, contentType, data) ∧ data ≠ [] ∧
    response.body = .fileOut file states ∧
    Uploaded shared thread
      (uploadedFile platform (uploadOf request filename contentType data) file.id began) shards ∧
    Encoded platform (uploadOf request filename contentType data) shards

def Promise (platform : Platform) (thread : Tid) : Job → Outcome → Shared → Prop
  | .download request, .response response, shared => Served platform thread request response shared
  | .createLink request, .response response, shared =>
      Issued thread request response shared
  | .upload request, .response response, shared => Stored platform thread request response shared
  | _, _, _ => True

section Rules
variable {platform : Platform} {post : Tid → Job → Outcome → Shared → Prop} {thread : Tid}
  {state : Shared}

theorem trivial_stable : Stable (contract post) thread fun _ => True := stable_const True

theorem files_once {shared : Shared} (wf : WellFormed shared) {left right : File}
    (inLeft : left ∈ shared.db.files) (inRight : right ∈ shared.db.files)
    (same : left.id = right.id) : left = right :=
  List.inj_on_of_nodup_map wf.files_nodup inLeft inRight same

theorem origin_of {shared : Shared} (wf : WellFormed shared) {file : File}
    (present : file ∈ shared.db.files) : Origin file shared := by
  obtain ⟨uploader, original, shards, uploaded, -, same, -⟩ := wf.descends file present
  exact ⟨uploader, original, shards, uploaded, same⟩

/-- The first row of a query, if any, is a row that satisfies its condition. -/
theorem keeps_head {Out : Type} {result : Out → Shared → Prop} {holds : Shared → Prop}
    {condition : Db → File → Bool} {rest : Option File → Async Out}
    (stable : Stable (contract post) thread holds) (start : holds state)
    (tail : ∀ found later, WellFormed later → holds later →
      (∀ file, found = some file → file ∈ later.db.files ∧ condition later.db file = true) →
        Keeps platform post thread result (rest found) later) :
    Keeps platform post thread result
      (((selectFiles condition).bind fun rows => .ret rows.head?).bind rest) state := by
  refine keeps_quiet (.selectFiles condition) stable trivial start ?_
  intro before rows after _ wf done _ held
  obtain ⟨order, same⟩ := Option.ite_none_right_eq_some.mp done
  cases same
  refine tail rows.head? before wf held fun file found => ?_
  exact List.mem_filter.mp (order.mem_iff.mp (List.mem_of_mem_head? found))

/-- Whatever the answers, the bytes read have the checksum of the file. -/
theorem readFile_ends (file : File) : (readFile platform file).Ends fun out =>
    ∀ data, out = .ok data → platform.sha256Hex data = file.checksumSha256 := by
  refine Prog.ends_bind (Prog.ends_true _) fun candidates _ => ?_
  refine Prog.ends_bind (Prog.ends_true _) fun blocks _ => ?_
  split
  · exact nofun
  · split
    · exact nofun
    · rename_i data _
      split
      · exact nofun
      · rename_i same
        rintro _ ⟨rfl⟩
        exact Decidable.of_not_not same

theorem auditRow_of {event : AuditEvent} (logged : Logged thread [.audit event] state) :
    AuditRow thread event.eventType event.fileId event.actorUserId event.ttlSeconds event.ipAddress
      state :=
  ⟨event, logged, rfl, rfl, rfl, rfl, rfl⟩

/-- Every way through a refusal commits its audit row first. -/
theorem deny_keeps (request : DownloadRequest) (loaded : Option File) (refusal : Response) :
    Keeps platform post thread
      (fun response later => response = refusal ∧ ∃ found,
        AuditRow thread .download_denied found none none request.ipAddress later)
      (deny platform request loaded refusal) state := by
  have last : ∀ (found : Option Uuid) (later : Shared), Keeps platform post thread
      (fun response later => response = refusal ∧ ∃ found,
        AuditRow thread .download_denied found none none request.ipAddress later)
      (do commit [record .download_denied found none none request.ipAddress]
          return refusal : Async Response) later := by
    intro found later
    refine keeps_commit (.audit ⟨found, none, .download_denied, none,
      request.ipAddress⟩) trivial_stable trivial (fun _ _ _ => ⟨nofun, nofun⟩) ?_
    intro before db _ _ _ _ _
    exact keeps_ret (logged_stable _) (recorded_logged thread before _ db) fun _ _ held =>
      ⟨rfl, found, auditRow_of held⟩
  unfold deny
  cases uuidOf platform.unicode request.fileId with
  | none => exact last none state
  | some candidate =>
      by_cases known : loaded.any (·.id = candidate) = true
      · simp only [known, if_true]
        exact last (some candidate) state
      · simp only [known]
        exact keeps_calm trivial_stable (getFile_quiet candidate) (Prog.ends_true _) trivial
          fun file later _ _ _ => last (file.map fun _ => candidate) later

theorem served_refusal (request : DownloadRequest) (refusal : Response)
    (plain : ∀ data filename, refusal.body ≠ .content data filename) (loaded : Option File) :
    Keeps platform post thread (Served platform thread request)
      (deny platform request loaded refusal) state := by
  refine safe_mono (deny_keeps request loaded refusal) ?_
  rintro response later - ⟨rfl, logged⟩
  exact ⟨fun data filename same => absurd same (plain data filename), fun _ => logged⟩

theorem served_error (request : DownloadRequest) (response : Response)
    (plain : ∀ data filename, response.body ≠ .content data filename)
    (other : response.status ≠ 403 ∧ response.status ≠ 404) :
    Keeps platform post thread (Served platform thread request) (.ret response) state := by
  refine keeps_ret trivial_stable trivial fun _ _ _ => ⟨?_, ?_⟩
  · exact fun data filename same => absurd same (plain data filename)
  · rintro (same | same)
    · exact absurd same other.1
    · exact absurd same other.2

theorem serveFile_keeps (request : DownloadRequest) (claims : LinkClaims)
    (signed : uuidOf platform.unicode request.fileId = some claims.fileId) :
    Keeps platform post thread (Served platform thread request)
      (serveFile platform request claims) state := by
  refine keeps_head trivial_stable trivial fun found later wf _ known => ?_
  cases found with
  | none => exact served_refusal request fileNotFound nofun none
  | some file =>
      obtain ⟨present, named⟩ := known file rfl
      simp only [decide_eq_true_eq] at named
      dsimp only
      split
      · exact served_refusal request fileNotFound nofun (some file)
      split
      · exact served_refusal request revokedLink nofun (some file)
      refine keeps_calm (origin_stable file) (readFile_quiet file) (readFile_ends file)
        (origin_of wf present) fun out last _ checked origin => ?_
      cases out with
      | error error =>
          cases error <;> exact served_error request _ nofun (by decide)
      | ok data =>
          refine keeps_commit (.audit ⟨some file.id, none, .download_success, none,
            request.ipAddress⟩) (origin_stable file) origin (fun _ _ _ => ⟨nofun, nofun⟩) ?_
          intro before db _ held _ life _
          refine keeps_ret (stable_and (origin_stable file) (logged_stable _)) ⟨?_,
            recorded_logged thread before _ db⟩ fun final _ both => ⟨?_, ?_⟩
          · obtain ⟨uploader, original, shards, uploaded, same⟩ := held
            exact ⟨uploader, original, shards, life_log life uploaded, same⟩
          · rintro bytes filename ⟨rfl, rfl⟩
            exact ⟨file, named ▸ signed, both.1, checked data rfl, auditRow_of both.2⟩
          · rintro (refused | refused) <;> cases refused

theorem downloadFile_keeps (request : DownloadRequest) :
    Keeps platform post thread (Served platform thread request)
      (downloadFile platform request) state := by
  unfold downloadFile
  split
  · exact served_error request rateLimited nofun (by decide)
  split
  · exact served_error request internalError nofun (by decide)
  refine keeps_quiet (.now) trivial_stable trivial trivial
    fun before time after _ _ _ _ _ => ?_
  unfold checkLink
  split
  · exact served_refusal request invalidLink nofun none
  · rename_i claims answered
    obtain ⟨_, _, _, _, -, -, -, -, accepted⟩ := accepted_of_verify answered
    exact serveFile_keeps request claims accepted.parsed

theorem createLink_keeps (request : LinkRequest) :
    Keeps platform post thread (Issued thread request) (createLink platform request) state := by
  have refused : ∀ response (later : Shared), (∀ out, response.body ≠ .link out) →
      Keeps platform post thread (Issued thread request) (.ret response) later :=
    fun response later plain => keeps_ret trivial_stable trivial
      fun _ _ _ out same => absurd same (plain out)
  unfold createLink
  split
  · exact refused rateLimited state nofun
  split
  · exact refused (ttlOutOfRange request.settings) state nofun
  refine keeps_head trivial_stable trivial fun found later wf _ known => ?_
  cases found with
  | none => exact refused fileNotFound later nofun
  | some file =>
      obtain ⟨present, selected⟩ := known file rfl
      simp only [owned, Bool.and_eq_true, decide_eq_true_eq] at selected
      obtain ⟨⟨named, -⟩, available⟩ := selected
      have linked : Linked request.fileId file.linkVersion later := by
        refine ⟨named ▸ wf.files_used file present, fun other inside same => ?_⟩
        rw [files_once wf inside present (same.trans named.symm)]
        exact ⟨Nat.le_refl _, fun gone => by rw [available] at gone; cases gone⟩
      refine keeps_quiet (.now) (linked_stable _ _) trivial linked
        fun _ time between _ _ _ _ held => ?_
      refine keeps_commit (.audit ⟨some file.id, some request.userId,
        .link_generated, some request.ttlSeconds.toNat, request.ipAddress⟩)
        (linked_stable _ _) held (fun _ _ _ => ⟨nofun, nofun⟩) ?_
      intro before db _ held _ life _
      split
      · exact refused internalError _ nofun
      · refine keeps_ret (stable_and (linked_stable _ _) (logged_stable _))
          ⟨life_linked life held, recorded_logged thread before _ db⟩ fun last _ both => ?_
        intro out same
        have link := Body.link.inj same
        subst link
        exact ⟨file.linkVersion, congrArg uuidText named, rfl, both.1, named ▸ auditRow_of both.2⟩

theorem revoked_gone {before : Shared} {db : Db} {fileId : Uuid} {deletedAt linkVersion : Nat}
    {event : AuditEvent} (known : fileId ∈ used before)
    (life : Life thread before
      (recorded before thread (.revoke fileId deletedAt linkVersion event) db))
    (done : before.db.commit (Transaction.revoke fileId deletedAt linkVersion event).writes =
      some db) :
    Gone fileId (recorded before thread (.revoke fileId deletedAt linkVersion event) db) := by
  refine ⟨used_mono life known, fun file inside named => ?_⟩
  have effect := (commit_effect (.revoke fileId deletedAt linkVersion event) nofun done).1
  have files_eq : db.files =
      File.update fileId (revokeFile deletedAt linkVersion) before.db.files :=
    congrArg Catalog.files effect
  change file ∈ db.files at inside
  rw [files_eq] at inside
  obtain ⟨old, -, rfl⟩ := List.mem_map.mp inside
  by_cases hit : old.id = fileId
  · rw [if_pos hit]
    rfl
  · rw [if_neg hit] at named
    exact absurd named hit

/-- A delete finds its file available, or another delete has been quicker. -/
theorem deleteFile_keeps (userId fileId : Uuid) (ipAddress : Option Text) :
    Keeps platform post thread (fun _ _ => True) (Routers.deleteFile userId fileId ipAddress)
      state := by
  refine keeps_head trivial_stable trivial fun found later wf _ known => ?_
  cases found with
  | none => exact keeps_ret trivial_stable trivial fun _ _ _ => trivial
  | some file =>
      obtain ⟨present, selected⟩ := known file rfl
      simp only [owned, Bool.and_eq_true, decide_eq_true_eq] at selected
      obtain ⟨⟨named, -⟩, available⟩ := selected
      have standing : Standing file.id file.linkVersion later := by
        refine ⟨wf.files_used file present, fun other inside same => ?_⟩
        rw [files_once wf inside present same]
        exact Or.inl ⟨available, rfl⟩
      refine safe_map ?_
      refine keeps_quiet (.now) (standing_stable _ _) trivial standing
        fun _ time between _ _ _ _ held => ?_
      refine keeps_commit (.revoke file.id time (file.linkVersion + 1)
        ⟨some file.id, some userId, .file_deleted, none, ipAddress⟩)
        (standing_stable _ _) held ?_ ?_
      · intro before _ held
        refine ⟨rfl, rfl, fun other inside same => ?_⟩
        rcases held.2 other inside same with ⟨status, version⟩ | ⟨status, version⟩
        · exact Or.inl ⟨status, by rw [version]⟩
        · exact Or.inr ⟨status, version.symm⟩
      · intro before db _ held done life wf
        have gone := revoked_gone held.1 life done
        refine safe_bind (removeDeletedShards_keeps file gone trivial_stable trivial
          fun _ _ _ _ => trivial) fun _ _ _ _ => ?_
        exact keeps_ret trivial_stable trivial fun _ _ _ => trivial

theorem ownedFile_quiet (userId fileId : Uuid) : (ownedFile userId fileId).Only quiet :=
  ⟨trivial, fun _ => trivial⟩

theorem listFiles_quiet (userId : Uuid) (limit offset : Nat) :
    (listFiles userId limit offset).Only quiet := by
  refine Prog.only_bind (selectFiles_quiet _) fun rows => ?_
  exact Prog.only_bind (availability_quiet _) fun _ => trivial

theorem getFile_handler_quiet (userId fileId : Uuid) :
    (Routers.getFile userId fileId).Only quiet := by
  refine Prog.only_bind (ownedFile_quiet userId fileId) fun found => ?_
  cases found with
  | none => trivial
  | some file => exact Prog.only_bind (availability_quiet _) fun _ => trivial

theorem quiet_keeps {Out : Type} {prog : Async Out} (only : prog.Only quiet) :
    Keeps platform post thread (fun _ _ => True) prog state := by
  refine safe_mono (safe_only trivial_stable only (Prog.ends_true _) trivial ?_)
    fun _ _ _ _ => trivial
  intro before request answer after calm _ _ done _
  exact ⟨.quiet (exec_quiet calm done), trivial⟩

end Rules

theorem uploadedShards_spec (platform : Platform) (upload : Upload) (fileId : Uuid)
    (block : Nat → Bytes) (index : Nat) (ids : List Uuid) (placement : List StorageNode)
    (count : ids.length = placement.length) :
    let shards := uploadedShards platform upload fileId index ids
      (placement.zip ((List.range' index placement.length).map block))
    shards.map (·.shardIndex) = List.range' index placement.length ∧
    shards.map (·.nodeId) = placement.map (·.id) ∧ shards.map (·.id) = ids ∧
    ∀ shard ∈ shards, shard.fileId = fileId ∧
      shard.kind = (if shard.shardIndex < upload.k then .data else .parity) ∧
      shard.checksumSha256 = platform.sha256Hex (block shard.shardIndex) := by
  induction placement generalizing index ids with
  | nil =>
      have none : ids = [] := List.length_eq_zero_iff.mp count
      subst none
      exact ⟨rfl, rfl, rfl, nofun⟩
  | cons node rest ih =>
      cases ids with
      | nil => cases count
      | cons id ids =>
          obtain ⟨indices, nodes, names, columns⟩ := ih (index + 1) ids (by simpa using count)
          simp only [List.length_cons, List.range'_succ, List.map_cons, List.zip_cons_cons,
            uploadedShards]
          refine ⟨by rw [indices]; rfl, by rw [nodes]; rfl, by rw [names]; rfl, ?_⟩
          intro shard member
          rcases List.mem_cons.mp member with rfl | later
          · exact ⟨rfl, rfl, rfl⟩
          · exact columns shard later

theorem chosen_nodup {shared : Shared} (wf : WellFormed shared) {condition : StorageNode → Bool}
    {candidates order : List StorageNode}
    (selected : candidates.Perm (shared.db.nodes.filter condition))
    (shuffled : order.Perm candidates) (count : Nat) :
    ((order.take count).map (·.id)).Nodup := by
  have registered : ((shared.db.nodes.filter condition).map (·.id)).Nodup :=
    wf.nodes_nodup.sublist (List.filter_sublist.map _)
  have distinct : (order.map (·.id)).Nodup :=
    ((shuffled.trans selected).map _).nodup_iff.mpr registered
  exact distinct.sublist ((List.take_sublist count order).map _)

section Upload
variable {platform : Platform} {post : Tid → Job → Outcome → Shared → Prop} {thread : Tid}
  {state : Shared}

theorem rollBackUpload_keeps (fileId : Uuid) (shards : List Shard) :
    Keeps platform post thread (fun _ _ => True) (rollBackUpload fileId shards) state := by
  refine keeps_calm trivial_stable (gather_quiet _) (Prog.ends_true _) trivial
    fun replies later _ _ _ => ?_
  split
  · change Keeps platform post thread _
      ((Prog.perform (Op.commit (Transaction.retract fileId).writes)).bind .ret) later
    refine keeps_commit (.retract fileId) trivial_stable trivial
      (fun _ _ _ => trivial) fun before db _ _ _ _ _ => ?_
    exact keeps_ret trivial_stable trivial fun _ _ _ => trivial
  · exact keeps_ret trivial_stable trivial fun _ _ _ => trivial

def Placed (platform : Platform) (thread : Tid) (upload : Upload) (began : Nat)
    (out : Except FilesError File) (shared : Shared) : Prop :=
  ∀ file, out = .ok file → ∃ shards,
    Uploaded shared thread (uploadedFile platform upload file.id began) shards ∧
    Encoded platform upload shards

theorem placed_error (upload : Upload) (began : Nat) (error : FilesError) :
    Keeps platform post thread (Placed platform thread upload began) (.ret (.error error)) state :=
  keeps_ret trivial_stable trivial fun _ _ _ => nofun

theorem uploadFile_keeps (began : Nat) (upload : Upload) :
    Keeps platform post thread (Placed platform thread upload began)
      (Files.uploadFile platform began upload) state := by
  unfold Files.uploadFile
  split
  · exact placed_error upload began _
  rename_i blocks encoded
  have nonempty : upload.data ≠ [] := by
    intro empty
    simp [encode, empty] at encoded
  rw [encode_eq _ _ _ _ nonempty, Except.ok.injEq] at encoded
  subst encoded
  refine keeps_quiet (.selectNodes _) trivial_stable trivial trivial
    fun before candidates after _ wf done _ _ => ?_
  obtain ⟨selected, same⟩ := Option.ite_none_right_eq_some.mp done
  cases same
  dsimp only
  split
  · exact placed_error upload began _
  refine keeps_quiet (.shuffle candidates) trivial_stable trivial trivial
    fun _ order between _ _ done _ _ => ?_
  obtain ⟨shuffled, -⟩ := Option.ite_none_right_eq_some.mp done
  have distinct := chosen_nodup wf selected shuffled (upload.k + upload.m)
  split
  · exact placed_error upload began _
  rename_i strict
  have count : (order.take (upload.k + upload.m)).length = upload.k + upload.m := by
    simpa using strict
  generalize order.take (upload.k + upload.m) = placement at distinct count ⊢
  refine keeps_uuid4 trivial_stable trivial (fun _ _ _ => trivial) fun fileId later _ _ drawn => ?_
  refine safe_bind (drawIds_keeps placement.length [fileId] ?_) fun ids later _ drew => ?_
  · intro id member
    exact List.mem_singleton.mp member ▸ drawn
  obtain ⟨idCount, fresh⟩ := drew
  have spec := uploadedShards_spec platform upload fileId
    (codeBlock platform.zfec upload.data upload.k upload.m) 0 ids placement idCount
  rw [count, ← List.range_eq_range'] at spec
  dsimp only at spec ⊢
  generalize uploadedShards platform upload fileId 0 ids (placement.zip _) = shards at spec ⊢
  obtain ⟨indices, nodes, names, columns⟩ := spec
  have complete : Complete (uploadedFile platform upload fileId began) shards := by
    refine ⟨rfl, fun shard member => (columns shard member).1, indices,
      fun shard member => (columns shard member).2.1, ?_⟩
    rw [nodes]
    exact distinct
  -- The ids stay ours: nobody draws an id twice.
  have stable : Stable (contract post) thread fun shared => ∀ id ∈ [fileId] ++ ids,
      Drawn thread id shared :=
    fun first last wfFirst wfLast relies held id member =>
      drawn_stable id first last wfFirst wfLast relies (held id member)
  refine keeps_commit (.upload (uploadedFile platform upload fileId began) shards)
    stable fresh ?_ ?_
  · intro before _ held
    refine ⟨complete, fun id member => held id ?_⟩
    rw [names] at member
    exact member
  intro before db wf held done life wfAfter
  have uploaded := recorded_logged thread before
    (.upload (uploadedFile platform upload fileId began) shards) db
  -- Any other commit on this file would have had to know its id.
  have pending : Pending thread fileId
      (recorded before thread (.upload (uploadedFile platform upload fileId began) shards) db) := by
    refine ⟨(held fileId (by simp)).1, (Ledger.uploaded_used uploaded).1, fun file inside named => ?_⟩
    cases life_file life file inside with
    | same present =>
        exact absurd (named ▸ wf.files_used file present) (held fileId (by simp)).2
    | published old present _ _ change =>
        subst change
        exact absurd (named ▸ wf.files_used old present) (held fileId (by simp)).2
    | revoked old _ _ present _ change =>
        subst change
        exact absurd (named ▸ wf.files_used old present) (held fileId (by simp)).2
    | uploaded _ _ pending => exact pending
  refine keeps_calm (stable_and (pending_stable fileId) (logged_stable _)) (gather_quiet _)
    (Prog.ends_true _) ⟨pending, uploaded⟩ fun results later _ _ both => ?_
  split
  · refine keeps_commit (.publish fileId ⟨some fileId, some upload.ownerId,
      .file_uploaded, none, upload.ipAddress⟩) (stable_and (pending_stable fileId)
      (logged_stable _)) both ?_ ?_
    · exact fun before _ held => ⟨held.1.1, held.1.2.1, rfl, rfl, held.1.2.2⟩
    · intro before db _ held _ life _
      refine keeps_ret (logged_stable _) (life_log life held.2) fun last _ logged => ?_
      rintro file ⟨rfl⟩
      exact ⟨shards, logged, fun shard member => (columns shard member).2.2⟩
  · exact safe_bind (rollBackUpload_keeps fileId shards) fun _ _ _ _ => placed_error upload began _

theorem upload_handler_keeps (request : UploadRequest) :
    Keeps platform post thread (Stored platform thread request)
      (Routers.uploadFile platform request) state := by
  have failed : ∀ response (later : Shared), response.status ≠ 201 →
      Keeps platform post thread (Stored platform thread request) (.ret response) later :=
    fun response later other => keeps_ret trivial_stable trivial
      fun _ _ _ success => absurd success other
  refine keeps_quiet (.now) trivial_stable trivial trivial
    fun _ began after _ _ _ _ _ => ?_
  dsimp only
  split
  · exact failed _ _ (by decide)
  split
  · exact failed _ _ (by decide)
  rename_i filename contentType data given
  split
  · exact failed _ _ (by decide)
  split
  · exact failed _ _ (by decide)
  rename_i nonempty
  refine safe_bind (uploadFile_keeps began (uploadOf request filename contentType data))
    fun out later _ placed => ?_
  cases out with
  | error error => cases error <;> exact failed _ _ (by decide)
  | ok file =>
      obtain ⟨shards, uploaded, checksums⟩ := placed file rfl
      refine keeps_head (logged_stable _) uploaded fun found later _ logged known => ?_
      cases found with
      | none => exact failed _ _ (by decide)
      | some refreshed =>
          have same : refreshed.id = file.id := by simpa using (known refreshed rfl).2
          refine keeps_calm (logged_stable _) (availability_quiet _) (Prog.ends_true _) logged
            fun states last _ _ logged => ?_
          refine keeps_ret (logged_stable _) logged fun final _ logged _ => ?_
          exact ⟨filename, contentType, data, refreshed, _, began, shards, given, nonempty, rfl,
            same ▸ logged, checksums⟩

end Upload

end SecureFileSystem.Handlers
