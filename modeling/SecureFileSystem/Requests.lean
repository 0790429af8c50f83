import SecureFileSystem.Upkeep

/-!
What the services ask for, whatever they are told: a request to a node names an
object whose id the program has drawn or read from a row, an upload writes the
rows of an encoding, and only the health check writes the status of a node.
-/

namespace SecureFileSystem.Requests

open Base Database Fleet Session Program Erasure Files SecureFileSystem.Configuration Maintenance
  Routers Service Interference Conduct Handlers

/-- An upload among these transactions is that of the blocks of some data. -/
def Coded (platform : Platform) (writes : List Write) : Prop :=
  ∀ file shards, writes = [.insertFile file, .insertShards shards] → ∃ upload began,
    upload.data ≠ [] ∧ file = uploadedFile platform upload file.id began ∧
      Encoded platform upload shards

def may (platform : Platform) (known : Uuid → Prop) : Op → Prop
  | .send requests => ∀ one ∈ requests, ∀ id, one.2.shard = some id → known id
  | .commit writes => Coded platform writes ∧ ∀ node status, .setStatus node status ∉ writes
  | _ => True

def learn (known : Uuid → Prop) : (request : Op) → Res request → Uuid → Prop
  | .uuid4, id, other => other = id ∨ known other
  | .selectPlaced _, rows, other => (∃ row ∈ rows, row.1.id = other) ∨ known other
  | _, _, other => known other

/-- The program keeps to what it knows, and knows `fact` of its result. -/
abbrev Conforms {Out : Type} (platform : Platform) (known : Uuid → Prop)
    (fact : (Uuid → Prop) → Out → Prop) (prog : Async Out) : Prop :=
  prog.Informed (may platform) learn
    (fun more out => (∀ id, known id → more id) ∧ fact more out) known

variable {platform : Platform} {known : Uuid → Prop} {Mid Out : Type}
  {fact : (Uuid → Prop) → Out → Prop}

theorem learn_known (request : Op) (answer : Res request) :
    ∀ id, known id → learn known request answer id := by
  intro id told
  cases request with
  | uuid4 => exact Or.inr told
  | selectPlaced condition => exact Or.inr told
  | _ => exact told

theorem conforms_ret {out : Out} (done : fact known out) :
    Conforms platform known fact (.ret out) :=
  ⟨fun _ told => told, done⟩

theorem conforms_weaken {earlier : Uuid → Prop} {weaker : (Uuid → Prop) → Out → Prop}
    {prog : Async Out} (before : ∀ id, earlier id → known id)
    (weaken : ∀ more out, (∀ id, known id → more id) → fact more out → weaker more out)
    (conforms : Conforms platform known fact prog) :
    prog.Informed (may platform) learn
      (fun more out => (∀ id, earlier id → more id) ∧ weaker more out) known := by
  have mono : ∀ more out, ((∀ id, known id → more id) ∧ fact more out) →
      (∀ id, earlier id → more id) ∧ weaker more out := by
    rintro more out ⟨grown, held⟩
    constructor
    · exact fun id told => grown id (before id told)
    · exact weaken more out grown held
  exact Prog.informed_mono conforms mono

theorem conforms_op (request : Op) {next : Res request → Async Out}
    (allowed : may platform known request)
    (rest : ∀ answer, Conforms platform (learn known request answer) fact (next answer)) :
    Conforms platform known fact ((Prog.perform request).bind next) := by
  constructor
  · exact allowed
  · intro answer
    exact conforms_weaken (learn_known request answer) (fun _ _ _ held => held) (rest answer)

theorem conforms_bind {between : (Uuid → Prop) → Mid → Prop} {first : Async Mid}
    {rest : Mid → Async Out} (head : Conforms platform known between first)
    (tail : ∀ more out, (∀ id, known id → more id) → between more out →
      Conforms platform more fact (rest out)) :
    Conforms platform known fact (first.bind rest) := by
  apply Prog.informed_bind head
  rintro more out ⟨grown, held⟩
  exact conforms_weaken grown (fun _ _ _ done => done) (tail more out grown held)

def Silent : Op → Prop
  | .send _ | .commit _ => False
  | _ => True

theorem silent_conforms {prog : Async Out} (only : prog.Only Silent) :
    Conforms platform known (fun _ _ => True) prog := by
  induction prog generalizing known with
  | ret out => exact conforms_ret trivial
  | op request next ih =>
      apply conforms_op request
      · cases request with
        | send requests => exact only.1.elim
        | commit writes => exact only.1.elim
        | _ => trivial
      · exact fun answer => ih answer (only.2 answer)

theorem gather_conforms (requests : List (Uuid × NodeRequest))
    (told : ∀ one ∈ requests, ∀ id, one.2.shard = some id → known id) :
    Conforms platform known (fun _ _ => True) (gather requests) :=
  ⟨told, fun _ => ⟨trivial, fun _ => conforms_ret trivial⟩⟩

theorem call_conforms (node : Uuid) (request : NodeRequest)
    (told : ∀ id, request.shard = some id → known id) :
    Conforms platform known (fun _ _ => True) (call node request) := by
  apply conforms_bind (gather_conforms _ ?_)
  · exact fun _ _ _ _ => conforms_ret trivial
  · intro one member
    rw [List.mem_singleton.mp member]
    exact told

theorem commit_conforms {writes : List Write} {next : Unit → Async Out}
    (coded : Coded platform writes) (plain : ∀ node status, .setStatus node status ∉ writes)
    (rest : Conforms platform known fact (next ())) :
    Conforms platform known fact ((commit writes).bind next) :=
  conforms_op (.commit writes) ⟨coded, plain⟩ fun _ => rest

theorem drawIds_conforms (count : Nat) :
    Conforms platform known (fun more ids => ∀ id ∈ ids, more id) (drawIds count) := by
  induction count generalizing known with
  | zero => exact conforms_ret (by simp)
  | succ count ih =>
      apply conforms_op .uuid4 trivial
      intro id
      apply conforms_bind ih
      intro more ids grown drawn
      apply conforms_ret
      intro other member
      rcases List.mem_cons.mp member with rfl | later
      · exact grown other (Or.inl rfl)
      · exact drawn other later

theorem uploadedShards_ids (upload : Upload) (fileId : Uuid) (index : Nat) (ids : List Uuid)
    (placed : List (StorageNode × Bytes)) :
    ∀ shard ∈ uploadedShards platform upload fileId index ids placed, shard.id ∈ ids := by
  induction placed generalizing index ids with
  | nil => cases ids <;> simp [uploadedShards]
  | cons one rest ih =>
      cases ids with
      | nil => simp [uploadedShards]
      | cons id ids =>
          intro shard member
          rcases List.mem_cons.mp member with rfl | later
          · exact List.mem_cons_self
          · exact List.mem_cons_of_mem _ (ih _ _ shard later)

theorem uploadedShards_encoded (platform : Platform) (upload : Upload) (fileId : Uuid) (block : Nat → Bytes)
    (index : Nat) (ids : List Uuid) (placement : List StorageNode) :
    ∀ shard ∈ uploadedShards platform upload fileId index ids
      (placement.zip ((List.range' index placement.length).map block)),
      shard.checksumSha256 = platform.sha256Hex (block shard.shardIndex) := by
  induction placement generalizing index ids with
  | nil => cases ids <;> simp [uploadedShards]
  | cons node rest ih =>
      cases ids with
      | nil => simp [uploadedShards]
      | cons id ids =>
          intro shard member
          rw [List.length_cons, List.range'_succ, List.map_cons, List.zip_cons_cons] at member
          rcases List.mem_cons.mp member with rfl | later
          · rfl
          · exact ih _ _ shard later

theorem deleteRequests_told {shards : List Shard} (told : ∀ shard ∈ shards, known shard.id) :
    ∀ one ∈ deleteRequests shards, ∀ id, one.2.shard = some id → known id := by
  intro one member id named
  obtain ⟨shard, inside, rfl⟩ := List.mem_map.mp member
  cases named
  exact told shard inside

theorem putRequests_told {shards : List Shard} (blocks : List Bytes)
    (told : ∀ shard ∈ shards, known shard.id) :
    ∀ one ∈ putRequests shards blocks, ∀ id, one.2.shard = some id → known id := by
  intro one member id named
  obtain ⟨⟨shard, block⟩, inside, rfl⟩ := List.mem_map.mp member
  cases named
  exact told shard (List.of_mem_zip inside).1

theorem rollBackUpload_conforms (fileId : Uuid) {shards : List Shard}
    (told : ∀ shard ∈ shards, known shard.id) :
    Conforms platform known (fun _ _ => True) (rollBackUpload fileId shards) := by
  apply conforms_bind (gather_conforms _ (deleteRequests_told told))
  intro more replies _ _
  split
  · apply commit_conforms (by simp [Coded]) (by simp)
    exact conforms_ret trivial
  · exact conforms_ret trivial

theorem uploadFile_conforms (began : Nat) (upload : Upload) :
    Conforms platform known (fun _ _ => True) (Files.uploadFile platform began upload) := by
  unfold Files.uploadFile
  split
  · exact conforms_ret trivial
  rename_i blocks encoded
  have nonempty : upload.data ≠ [] := by
    intro empty
    simp [encode, empty] at encoded
  rw [encode_eq _ _ _ _ nonempty, Except.ok.injEq] at encoded
  apply conforms_op (.selectNodes _) trivial
  intro candidates
  split
  · exact conforms_ret trivial
  apply conforms_op (.shuffle _) trivial
  intro order
  dsimp only
  split
  · exact conforms_ret trivial
  rename_i strict
  have count : (order.take (upload.k + upload.m)).length = upload.k + upload.m := by
    rw [← encoded] at strict
    simpa using strict
  apply conforms_op .uuid4 trivial
  intro fileId
  apply conforms_bind (drawIds_conforms _)
  intro more ids _ drawn
  have checksums := uploadedShards_encoded platform upload fileId
    (codeBlock platform.zfec upload.data upload.k upload.m) 0 ids
    (order.take (upload.k + upload.m))
  rw [count, ← List.range_eq_range', encoded] at checksums
  have told : ∀ shard ∈ uploadedShards platform upload fileId 0 ids
      ((order.take (upload.k + upload.m)).zip blocks), more shard.id :=
    fun shard member => drawn _ (uploadedShards_ids _ _ _ _ _ shard member)
  apply commit_conforms
  · intro file shards same
    simp only [List.cons.injEq, Write.insertFile.injEq, Write.insertShards.injEq, and_true] at same
    obtain ⟨rfl, rfl⟩ := same
    exact ⟨upload, began, nonempty, rfl, checksums⟩
  · simp
  apply conforms_bind (gather_conforms _ (putRequests_told blocks told))
  intro later results grown _
  split
  · apply commit_conforms (by simp [Coded]) (by simp [record])
    exact conforms_ret trivial
  · apply conforms_bind (rollBackUpload_conforms fileId fun shard member =>
      grown _ (told shard member))
    exact fun _ _ _ _ => conforms_ret trivial

theorem quiet_silent {prog : Async Out} (silent : prog.Only Silent) {rest : Out → Async Mid}
    {result : (Uuid → Prop) → Mid → Prop}
    (tail : ∀ more out, (∀ id, known id → more id) → Conforms platform more result (rest out)) :
    Conforms platform known result (prog.bind rest) :=
  conforms_bind (silent_conforms silent) fun more out grown _ => tail more out grown

theorem availability_silent (files : List File) : (availability files).Only Silent := by
  unfold availability
  split
  · trivial
  · exact ⟨trivial, fun _ => trivial⟩

theorem getFile_silent (fileId : Uuid) : (Session.getFile fileId).Only Silent :=
  ⟨trivial, fun _ => trivial⟩

theorem ownedFile_silent (userId fileId : Uuid) : (ownedFile userId fileId).Only Silent :=
  ⟨trivial, fun _ => trivial⟩

theorem listFiles_silent (userId : Uuid) (limit offset : Nat) :
    (listFiles userId limit offset).Only Silent := by
  have selects : ∀ condition, (selectFiles condition).Only Silent := fun _ => ⟨trivial, fun _ => trivial⟩
  apply Prog.only_bind (selects _)
  intro rows
  exact Prog.only_bind (availability_silent _) fun _ => trivial

theorem getFile_handler_silent (userId fileId : Uuid) :
    (Routers.getFile userId fileId).Only Silent := by
  apply Prog.only_bind (ownedFile_silent userId fileId)
  intro found
  cases found with
  | none => trivial
  | some file => exact Prog.only_bind (availability_silent _) fun _ => trivial

theorem upload_handler_conforms (request : UploadRequest) :
    Conforms platform known (fun _ _ => True) (Routers.uploadFile platform request) := by
  apply conforms_op .now trivial
  intro began
  split
  · exact conforms_ret trivial
  split
  · exact conforms_ret trivial
  split
  · exact conforms_ret trivial
  split
  · exact conforms_ret trivial
  apply conforms_bind (uploadFile_conforms began _)
  intro more uploaded _ _
  cases uploaded with
  | error error => cases error <;> exact conforms_ret trivial
  | ok file =>
      apply quiet_silent (getFile_silent file.id)
      intro more found _
      cases found with
      | none => exact conforms_ret trivial
      | some refreshed =>
          exact quiet_silent (availability_silent _) fun _ _ _ => conforms_ret trivial

theorem createLink_conforms (request : LinkRequest) :
    Conforms platform known (fun _ _ => True) (createLink platform request) := by
  unfold createLink
  split
  · exact conforms_ret trivial
  split
  · exact conforms_ret trivial
  apply quiet_silent (ownedFile_silent _ _)
  intro more found _
  cases found with
  | none => exact conforms_ret trivial
  | some file =>
      apply conforms_op .now trivial
      intro time
      apply commit_conforms (by simp [Coded]) (by simp [record])
      split <;> exact conforms_ret trivial

theorem select_conforms (condition : Db → Shard → StorageNode → Bool)
    {next : List (Shard × StorageNode) → Async Out}
    (rest : ∀ more rows, (∀ id, known id → more id) → (∀ row ∈ rows, more row.1.id) →
      Conforms platform more fact (next rows)) :
    Conforms platform known fact ((selectPlaced condition).bind next) := by
  apply conforms_op (.selectPlaced condition) trivial
  intro rows
  apply rest _ rows (learn_known (.selectPlaced condition) rows)
  exact fun row member => Or.inl ⟨row, member, rfl⟩

theorem deletes_told {placed : List (Shard × StorageNode)} (told : ∀ row ∈ placed, known row.1.id) :
    ∀ one ∈ placed.map (fun row => (row.2.id, NodeRequest.delete row.1.id)),
      ∀ id, one.2.shard = some id → known id := by
  intro one member id named
  obtain ⟨row, inside, rfl⟩ := List.mem_map.mp member
  cases named
  exact told row inside

theorem removeDeletedShards_conforms (file : File) :
    Conforms platform known (fun _ _ => True) (removeDeletedShards file) := by
  apply select_conforms
  intro more placed _ told
  apply conforms_bind (gather_conforms _ (deletes_told told))
  intro later replies _ _
  exact commit_conforms (by simp [Coded]) (by simp) (conforms_ret trivial)

theorem deleteFile_conforms (userId fileId : Uuid) (ipAddress : Option Text) :
    Conforms platform known (fun _ _ => True) (Routers.deleteFile userId fileId ipAddress) := by
  apply quiet_silent (ownedFile_silent _ _)
  intro more found _
  cases found with
  | none => exact conforms_ret trivial
  | some file =>
      have removes : Conforms platform more (fun _ _ => True)
          (Files.deleteFile file userId ipAddress) := by
        apply conforms_op .now trivial
        intro deletedAt
        apply commit_conforms (by simp [Coded]) (by simp [record])
        exact conforms_bind (removeDeletedShards_conforms file) fun _ _ _ _ => conforms_ret trivial
      exact conforms_bind removes fun _ _ _ _ => conforms_ret trivial

theorem deny_conforms (request : DownloadRequest) (loaded : Option File) (refusal : Response) :
    Conforms platform known (fun _ _ => True) (deny platform request loaded refusal) := by
  have recorded : ∀ (more : Uuid → Prop) found, Conforms platform more (fun _ _ => True)
      (Prog.bind (commit [record .download_denied found none none request.ipAddress])
        fun _ => (.ret refusal : Async Response)) :=
    fun more found => commit_conforms (by simp [Coded]) (by simp [record]) (conforms_ret trivial)
  unfold deny
  cases Uuid.uuidOf platform.unicode request.fileId with
  | none => exact recorded known none
  | some candidate =>
      dsimp only [Prog.pure_eq, Prog.bind_eq]
      split
      · exact recorded known _
      · apply quiet_silent (getFile_silent candidate)
        exact fun more found _ => recorded more (found.map fun _ => candidate)

theorem gets_told {batch : List (Shard × StorageNode)} (told : ∀ row ∈ batch, known row.1.id) :
    ∀ one ∈ getRequests batch, ∀ id, one.2.shard = some id → known id := by
  intro one member id named
  obtain ⟨row, inside, rfl⟩ := List.mem_map.mp member
  cases named
  exact told row inside

theorem fetchRounds_conforms (k fuel : Nat) (collected : Blocks)
    (remaining : List (Shard × StorageNode)) (told : ∀ row ∈ remaining, known row.1.id) :
    Conforms platform known (fun _ _ => True)
      (fetchRounds platform k fuel collected remaining) := by
  induction fuel generalizing known collected remaining with
  | zero => exact conforms_ret trivial
  | succ fuel ih =>
      unfold fetchRounds
      split
      · apply conforms_bind (gather_conforms _ (gets_told fun row member =>
          told row (List.mem_of_mem_take member)))
        intro more results grown _
        exact ih _ _ fun row member => grown _ (told row (List.mem_of_mem_drop member))
      · exact conforms_ret trivial

theorem shardCandidates_conforms (file : File) (exclude : List Uuid) (loaded : List StorageNode) :
    Conforms platform known (fun more rows => ∀ row ∈ rows, more row.1.id)
      (shardCandidates file exclude loaded) := by
  apply select_conforms
  intro more rows _ told
  apply conforms_ret
  intro row member
  have unsorted := (List.perm_insertionSort _ _).mem_iff.mp member
  obtain ⟨source, inside, rfl⟩ := List.mem_map.mp (List.mem_filter.mp unsorted).1
  exact told source inside

theorem readFile_conforms (file : File) :
    Conforms platform known (fun _ _ => True) (readFile platform file) := by
  apply conforms_bind (shardCandidates_conforms _ _ _)
  intro more candidates _ told
  apply conforms_bind (fetchRounds_conforms _ _ _ _ told)
  intro later blocks _ _
  split
  · exact conforms_ret trivial
  · split
    · exact conforms_ret trivial
    · split <;> exact conforms_ret trivial

theorem serveFile_conforms (request : DownloadRequest) (claims : Signing.LinkClaims) :
    Conforms platform known (fun _ _ => True) (serveFile platform request claims) := by
  apply quiet_silent (getFile_silent _)
  intro more found _
  cases found with
  | none => exact deny_conforms _ _ _
  | some file =>
      dsimp only [Prog.pure_eq, Prog.bind_eq]
      split
      · exact deny_conforms _ _ _
      split
      · exact deny_conforms _ _ _
      apply conforms_bind (readFile_conforms file)
      intro later read _ _
      cases read with
      | error error => cases error <;> exact conforms_ret trivial
      | ok data => exact commit_conforms (by simp [Coded]) (by simp [record]) (conforms_ret trivial)

theorem downloadFile_conforms (request : DownloadRequest) :
    Conforms platform known (fun _ _ => True) (downloadFile platform request) := by
  unfold downloadFile
  split
  · exact conforms_ret trivial
  split
  · exact conforms_ret trivial
  apply conforms_op .now trivial
  intro time
  unfold checkLink
  split
  · exact deny_conforms _ _ _
  · exact serveFile_conforms _ _

theorem gcStaleFiles_conforms (files : List File) :
    Conforms platform known (fun _ _ => True) (gcStaleFiles files) := by
  induction files generalizing known with
  | nil => exact conforms_ret trivial
  | cons file rest ih =>
      apply select_conforms
      intro more placed _ told
      apply conforms_bind (gather_conforms _ (deletes_told told))
      intro later results _ _
      split
      · exact commit_conforms (by simp [Coded]) (by simp) ih
      · exact ih

theorem gcPendingFiles_conforms (files : List File) :
    Conforms platform known (fun _ _ => True) (gcPendingFiles files) := by
  induction files generalizing known with
  | nil => exact conforms_ret trivial
  | cons file rest ih => exact conforms_bind (removeDeletedShards_conforms file) fun _ _ _ _ => ih

theorem repairShards_conforms (work : List ((Shard × StorageNode) × Bytes × StorageNode))
    (told : ∀ one ∈ work, known one.1.1.id) :
    Conforms platform known (fun _ _ => True) (repairShards platform work) := by
  induction work generalizing known with
  | nil => exact conforms_ret trivial
  | cons one rest ih =>
      obtain ⟨⟨shard, oldNode⟩, block, target⟩ := one
      have here : known shard.id := told _ List.mem_cons_self
      have later : ∀ one ∈ rest, known one.1.1.id :=
        fun one member => told one (List.mem_cons_of_mem _ member)
      unfold repairShards
      split
      · exact ih later
      apply conforms_op .uuid4 trivial
      intro newId
      apply conforms_bind (call_conforms _ _ (by rintro id ⟨rfl⟩; exact Or.inl rfl))
      intro more reply grown _
      have still : ∀ id, known id → more id := fun id told => grown id (Or.inr told)
      split
      · apply commit_conforms (by simp [Coded]) (by simp)
        apply conforms_bind (call_conforms _ _ (by rintro id ⟨rfl⟩; exact still _ here))
        intro last _ grown _
        apply conforms_bind (ih fun one member => grown _ (still _ (later one member)))
        exact fun _ _ _ _ => conforms_ret trivial
      · exact ih fun one member => still _ (later one member)

theorem repairFile_conforms (fileId : Uuid) (bad : List Uuid) :
    Conforms platform known (fun _ _ => True) (repairFile platform fileId bad) := by
  apply quiet_silent (getFile_silent fileId)
  intro more found _
  cases found with
  | none => exact conforms_ret trivial
  | some file =>
      dsimp only [Prog.pure_eq, Prog.bind_eq]
      split
      · exact conforms_ret trivial
      apply select_conforms
      intro more placed _ told
      apply conforms_bind (shardCandidates_conforms _ _ _)
      intro later good grown candidates
      apply conforms_bind (fetchRounds_conforms _ _ _ _ candidates)
      intro last blocks further _
      split
      · exact conforms_ret trivial
      apply conforms_op (.selectNodes _) trivial
      intro healthy
      apply conforms_op (.shuffle _) trivial
      intro targets
      split
      · exact conforms_ret trivial
      apply conforms_bind (repairShards_conforms _ ?_)
      · exact fun _ _ _ _ => conforms_ret trivial
      · intro one member
        have inside := (List.mem_filter.mp (List.of_mem_zip member).1).1
        exact further _ (grown _ (told _ inside))

theorem repairFiles_conforms (groups : ByFile) :
    Conforms platform known (fun _ _ => True) (repairFiles platform groups) := by
  induction groups generalizing known with
  | nil => exact conforms_ret trivial
  | cons group rest ih =>
      obtain ⟨fileId, shardIds⟩ := group
      apply conforms_bind (repairFile_conforms fileId shardIds)
      intro more outcome _ _
      cases outcome with
      | error error => exact conforms_ret trivial
      | ok repaired =>
          apply conforms_bind ih
          intro later others _ _
          cases others <;> exact conforms_ret trivial

theorem scrubShards_conforms (bad : ByFile) (rows : List (Shard × StorageNode))
    (told : ∀ row ∈ rows, known row.1.id) :
    Conforms platform known (fun _ _ => True) (scrubShards platform bad rows) := by
  induction rows generalizing known bad with
  | nil => exact conforms_ret trivial
  | cons row rest ih =>
      obtain ⟨shard, node⟩ := row
      have here : known shard.id := told _ List.mem_cons_self
      apply conforms_bind (call_conforms _ _ (by rintro id ⟨rfl⟩; exact here))
      intro more reply grown _
      have later : ∀ row ∈ rest, more row.1.id :=
        fun row member => grown _ (told row (List.mem_cons_of_mem _ member))
      split
      · exact ih _ later
      · exact ih _ later
      · exact ih _ later
      · split
        · exact ih _ later
        · exact ih _ later

theorem scrub_conforms (settings : Settings) :
    Conforms platform known (fun _ _ => True) (scrub platform settings) := by
  unfold scrub
  split
  · exact conforms_ret trivial
  apply select_conforms
  intro more rows _ told
  apply conforms_bind (scrubShards_conforms _ _ fun row member =>
    told row (List.mem_of_mem_take member))
  exact fun _ bad _ _ => repairFiles_conforms bad

/-- Every job but the health check, from knowing nothing. -/
theorem program_conforms (known : Uuid → Prop) (job : Job)
    (other : ∀ settings failures, job ≠ .checkNodeHealth settings failures) :
    Conforms platform known (fun _ _ => True) (program platform job) := by
  have counted : ∀ {Result : Type} {prog : Async Result} (out : Result → Outcome),
      Conforms platform known (fun _ _ => True) prog →
      Conforms platform known (fun _ _ => True) (prog.bind fun result => .ret (out result)) :=
    fun out conforms => conforms_bind conforms fun _ _ _ _ => conforms_ret trivial
  cases job with
  | upload request => exact counted _ (upload_handler_conforms request)
  | listFiles userId limit offset => exact counted _ (silent_conforms (listFiles_silent _ _ _))
  | getFile userId fileId => exact counted _ (silent_conforms (getFile_handler_silent _ _))
  | createLink request => exact counted _ (createLink_conforms request)
  | deleteFile userId fileId ip => exact counted _ (deleteFile_conforms _ _ _)
  | download request => exact counted _ (downloadFile_conforms request)
  | checkNodeHealth settings failures => exact absurd rfl (other settings failures)
  | gcStaleUploads settings =>
      apply counted fun _ => .returned 0
      apply conforms_op .now trivial
      intro time
      apply conforms_op (.selectFiles _) trivial
      exact fun stale => gcStaleFiles_conforms stale
  | gcDeletedFiles =>
      apply counted fun _ => .returned 0
      apply conforms_op (.selectFiles _) trivial
      exact fun pending => gcPendingFiles_conforms pending
  | repairLostShards settings =>
      apply counted Service.counted
      apply conforms_op .now trivial
      intro time
      apply select_conforms
      exact fun _ _ _ _ => repairFiles_conforms _
  | scrub settings => exact counted _ (scrub_conforms settings)
  | repairFile fileId bad => exact counted _ (repairFile_conforms _ _)

end SecureFileSystem.Requests
