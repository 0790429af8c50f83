import SecureFileSystem.Assoc
import SecureFileSystem.Attribution
import SecureFileSystem.AuditTrail
import SecureFileSystem.Links
import SecureFileSystem.Transcript

/-!
What stands behind bytes that leave the service. A download that answers with
a file gives the bytes and the name of an upload, on a link that the same user
was handed, before that link expires.
-/

namespace SecureFileSystem.Entitlement

open Base Database Session LifeCycle Program Transition RelyGuarantee Execution Transcript Files
  Uuid TextCodec SecureFileSystem.Configuration Signing Routers Service Interference Stability
  Conduct Handlers Guarantees Attribution Links

def Tagged (platform : Platform) (settings : Settings) (sig : Text) : Prop :=
  ∃ keys kid key fileId expires linkVersion,
    settings.signingKeys platform.unicode = some keys ∧ keys.lookup kid = some key ∧
      sig = sign platform key kid fileId expires linkVersion

/-- Who does not hold the keys can only repeat a signature that a response has
handed out. -/
def Unforged (platform : Platform) (labels : List ServiceLabel) : Prop :=
  ∀ early late thread request sig, labels = early ++ .start thread (.download request) :: late →
    request.sig = some sig → Tagged platform request.settings sig →
      ∃ issuer link status out,
        .finish issuer (.createLink link) (.response ⟨status, .link out⟩) ∈ early ∧ out.sig = sig

def settingsOf : Job → Option Settings
  | .createLink request => some request.settings
  | .download request => some request.settings
  | _ => none

/-- The API does not start with settings its validator refuses. -/
def Configured (platform : Platform) (labels : List ServiceLabel) : Prop :=
  ∀ thread job settings, .start thread job ∈ labels → settingsOf job = some settings →
    settings.accepted platform.unicode = true

/-- The upload of this thread, among the steps seen, made the file of this id out
of these bytes: it inserted the row, and a 201 it was answered with has no other id. -/
structure Made (platform : Platform) (seen : ServiceLabel → Prop) (uploader : Tid)
    (owner fileId : Uuid) (name : Text) (bytes : Bytes) : Prop where
  inserted : ∃ file shards,
    seen (.act uploader (.commit [.insertFile file, .insertShards shards]) ()) ∧
    file.id = fileId ∧ file.ownerUserId = owner ∧ file.originalName = name ∧
    file.checksumSha256 = platform.sha256Hex bytes
  answered : ∀ request file states,
    seen (.finish uploader (.upload request) (.response ⟨201, .fileOut file states⟩)) →
      file.id = fileId

/-- Bytes that an owner has uploaded and, by a link to that very file, let be fetched. -/
structure Granted (platform : Platform) (earlier : List ServiceLabel) (reader : Tid)
    (request : DownloadRequest) (bytes : Bytes) (name : Text) (upload : UploadRequest)
    (link : LinkRequest) (out : LinkOut) : Prop where
  uploaded : ∃ uploader contentType, .start uploader (.upload upload) ∈ earlier ∧
    upload.upload = some (name, contentType, bytes) ∧
    bytes.length ≤ upload.settings.maxUploadBytes ∧
    Made platform (· ∈ earlier) uploader upload.userId link.fileId name bytes
  handed : ∃ (issuer : Tid) (status time : Nat),
    .finish issuer (.createLink link) (.response ⟨status, .link out⟩) ∈ earlier ∧
    .act issuer .now time ∈ earlier ∧ (out.expiresAt : Int) = time + link.ttlSeconds
  owner : link.userId = upload.userId
  lifetime : (link.settings.minTtlSeconds : Int) ≤ link.ttlSeconds ∧
    link.ttlSeconds ≤ link.settings.maxTtlSeconds
  file : uuidOf platform.unicode request.fileId = some link.fileId
  carried : request.sig = some out.sig
  live : ∃ time, .act reader .now time ∈ earlier ∧ time < out.expiresAt

section Programs
variable {platform : Platform}

def LinkFrom (platform : Platform) (request : LinkRequest) (told : List (Answered Res))
    (response : Response) : Prop :=
  ∀ out, response.body = .link out → ∃ rows file time,
    (⟨.selectFiles (owned request.userId request.fileId), rows⟩ : Answered Res) ∈ told ∧
    file ∈ rows ∧ (⟨.now, time⟩ : Answered Res) ∈ told ∧
    (request.settings.minTtlSeconds : Int) ≤ request.ttlSeconds ∧
    request.ttlSeconds ≤ request.settings.maxTtlSeconds ∧
    (out.expiresAt : Int) = time + request.ttlSeconds ∧
    out.sig = sign platform request.settings.secretKey request.settings.secretKeyId file.id
      out.expiresAt file.linkVersion

theorem createLink_shows (request : LinkRequest) :
    Shows (LinkFrom platform request) [] (createLink platform request) := by
  have without : ∀ (told : List (Answered Res)) (response : Response),
      (∀ out, response.body ≠ .link out) →
      Shows (LinkFrom platform request) told (.ret response) :=
    fun told response plain out same => absurd same (plain out)
  unfold createLink
  split
  · exact without _ rateLimited nofun
  split
  · exact without _ (ttlOutOfRange request.settings) nofun
  rename_i range
  rw [Decidable.not_not] at range
  refine ⟨trivial, fun rows => ?_⟩
  cases found : rows.head? with
  | none =>
      simp only [Prog.ret_bind, found]
      exact without _ fileNotFound nofun
  | some file =>
      simp only [Prog.ret_bind, found]
      refine ⟨trivial, fun time => ⟨trivial, fun _ => ?_⟩⟩
      split
      · exact without _ internalError nofun
      · intro out same
        have link := Body.link.inj same
        subst link
        refine ⟨rows, file, time, by simp, List.mem_of_mem_head? found, by simp, range.1, range.2,
          ?_, rfl⟩
        have positive := range.1
        dsimp only
        omega

def ReadFrom (platform : Platform) (request : DownloadRequest) (told : List (Answered Res))
    (response : Response) : Prop :=
  ∀ data name, response.body = .content data name → ∃ keys time claims rows file,
    request.settings.signingKeys platform.unicode = some keys ∧
    (⟨.now, time⟩ : Answered Res) ∈ told ∧
    verify platform keys request.fileId request.exp request.v request.kid request.sig time =
      .ok claims ∧
    (⟨.selectFiles fun _ file => file.id = claims.fileId, rows⟩ : Answered Res) ∈ told ∧
    file ∈ rows ∧ name = file.originalName ∧ platform.sha256Hex data = file.checksumSha256

theorem downloadFile_shows (request : DownloadRequest) :
    Shows (ReadFrom platform request) [] (downloadFile platform request) := by
  have without : ∀ (told : List (Answered Res)) (response : Response),
      (∀ data name, response.body ≠ .content data name) →
      Shows (ReadFrom platform request) told (.ret response) :=
    fun told response plain data name same => absurd same (plain data name)
  -- A refusal carries no content, whatever it writes to the audit log.
  have denied : ∀ (told : List (Answered Res)) (loaded : Option File) (refusal : Response),
      (∀ data name, refusal.body ≠ .content data name) →
      Shows (ReadFrom platform request) told (deny platform request loaded refusal) := by
    intro told loaded refusal plain
    unfold deny
    cases uuidOf platform.unicode request.fileId with
    | none => exact ⟨trivial, fun _ => without _ refusal plain⟩
    | some candidate =>
        by_cases known : loaded.any (·.id = candidate) = true
        · simp only [known, if_true]
          exact ⟨trivial, fun _ => without _ refusal plain⟩
        · simp only [known]
          exact ⟨trivial, fun _ => ⟨trivial, fun _ => without _ refusal plain⟩⟩
  unfold downloadFile
  split
  · exact without _ rateLimited nofun
  split
  · exact without _ internalError nofun
  rename_i keys listed
  refine ⟨trivial, fun time => ?_⟩
  unfold checkLink
  simp only [Prog.ret_bind]
  split
  · exact denied _ none invalidLink nofun
  rename_i claims verified
  refine ⟨trivial, fun rows => ?_⟩
  cases found : rows.head? with
  | none =>
      simp only [Prog.ret_bind, Prog.pure_eq, found]
      exact denied _ none fileNotFound nofun
  | some file =>
      simp only [Prog.ret_bind, Prog.pure_eq, found]
      split
      · exact denied _ (some file) fileNotFound nofun
      split
      · exact denied _ (some file) revokedLink nofun
      apply shows_ends (readFile_ends file)
      intro more read grown checked
      cases read with
      | error error => cases error <;> exact without _ _ nofun
      | ok bytes =>
          refine ⟨trivial, fun _ => ?_⟩
          rintro data name ⟨rfl, rfl⟩
          refine ⟨keys, time, claims, rows, file, listed, ?_, verified, ?_,
            List.mem_of_mem_head? found, rfl, checked _ rfl⟩
          · exact List.mem_append_left _ (grown.subset (by simp))
          · exact List.mem_append_left _ (grown.subset (by simp))

/-- The file rows an upload inserts are those of its request. -/
def inserts (platform : Platform) : Job → Write → Prop
  | .upload request, .insertFile file => ∃ filename contentType data fileId began,
      request.upload = some (filename, contentType, data) ∧
      data.length ≤ request.settings.maxUploadBytes ∧
      file = uploadedFile platform (uploadOf request filename contentType data) fileId began
  | _, .insertFile _ => False
  | _, _ => True

theorem uploadFile_inserts (began : Nat) (upload : Upload) {kinds : Write → Prop}
    (mine : ∀ fileId, kinds (.insertFile (uploadedFile platform upload fileId began)))
    (others : ∀ write, (∀ file, write ≠ .insertFile file) → kinds write) :
    (Files.uploadFile platform began upload).Only (Within kinds) := by
  unfold Files.uploadFile
  split
  · trivial
  apply op_within (.selectNodes _) trivial
  intro candidates
  split
  · trivial
  apply op_within (.shuffle _) trivial
  intro order
  dsimp only
  split
  · trivial
  apply op_within .uuid4 trivial
  intro fileId
  apply Prog.only_bind (drawIds_within _)
  intro ids
  apply commit_within
  · simpa using ⟨mine fileId, others _ (by rintro file ⟨⟩)⟩
  apply Prog.only_bind (quiet_within (gather_quiet _))
  intro results
  split
  · apply commit_within
    · simpa [record] using
        ⟨others _ (by rintro file ⟨⟩), others _ (by rintro file ⟨⟩)⟩
    · trivial
  · exact result_within (rollBackUpload_within (fun _ => others _ (by rintro file ⟨⟩)) _ _)

theorem program_inserts (job : Job) :
    (program platform job).Only (Within (inserts platform job)) := by
  cases job with
  | upload request =>
      apply result_within
      apply op_within .now trivial
      intro began
      split
      · trivial
      split
      · trivial
      rename_i filename contentType data given
      split
      · trivial
      rename_i small
      split
      · trivial
      apply Prog.only_bind (uploadFile_inserts began _ ?_ ?_)
      · intro uploaded
        cases uploaded with
        | error error => cases error <;> trivial
        | ok file =>
            apply Prog.only_bind (quiet_within (getFile_quiet file.id))
            intro found
            cases found with
            | none => trivial
            | some refreshed => exact result_within (quiet_within (availability_quiet _))
      · exact fun fileId => ⟨filename, contentType, data, fileId, began, given,
          Nat.not_lt.mp small, rfl⟩
      · intro write plain
        cases write with
        | insertFile file => exact absurd rfl (plain file)
        | _ => trivial
  | _ =>
      apply Prog.only_mono (program_within _)
      intro request within
      cases request with
      | commit writes =>
          intro write member
          have may := within write member
          cases write with
          | insertFile file => exact may.elim
          | _ => trivial
      | _ => trivial

def insertsFile : Op → Bool
  | .commit writes => writes.any fun
      | .insertFile _ => true
      | _ => false
  | _ => false

theorem insertsFile_none {request : Op}
    (within : Within (fun write => ∀ file, write ≠ .insertFile file) request) :
    insertsFile request = false := by
  cases request with
  | commit writes =>
      refine List.any_eq_false.mpr fun write member => ?_
      have other := within write member
      cases write with
      | insertFile file => exact absurd rfl (other file)
      | _ => exact Bool.false_ne_true
  | _ => rfl

theorem plain_once {Out : Type} {used : Bool} {prog : Async Out}
    (within : prog.Only (Within fun write => ∀ file, write ≠ .insertFile file)) :
    Once insertsFile used prog :=
  once_only (Prog.only_mono within fun _ => insertsFile_none)

/-- An upload makes one file: nothing before its insert does, and nothing behind it. -/
theorem uploadFile_once (began : Nat) (upload : Upload) :
    Once insertsFile false (Files.uploadFile platform began upload) := by
  unfold Files.uploadFile
  split
  · trivial
  refine ⟨fun _ => rfl, fun candidates => ?_⟩
  dsimp only [Prog.ret_bind]
  split
  · trivial
  refine ⟨fun _ => rfl, fun order => ?_⟩
  dsimp only [Prog.ret_bind]
  split
  · trivial
  refine ⟨fun _ => rfl, fun fileId => ?_⟩
  dsimp only [Prog.ret_bind]
  refine once_bind (Prog.only_mono (drawIds_within _) fun _ => insertsFile_none) fun ids => ?_
  refine ⟨fun _ => rfl, fun _ => plain_once ?_⟩
  apply Prog.only_bind (quiet_within (gather_quiet _))
  intro results
  split
  · apply commit_within
    · simp [record]
    · trivial
  · exact result_within (rollBackUpload_within (by rintro _ _ ⟨⟩) _ _)

theorem upload_handler_once (request : UploadRequest) :
    Once insertsFile false (Routers.uploadFile platform request) := by
  refine ⟨fun _ => rfl, fun began => ?_⟩
  dsimp only [Prog.ret_bind]
  split
  · trivial
  split
  · trivial
  split
  · trivial
  split
  · trivial
  refine Prog.informed_bind (uploadFile_once began _) fun _ uploaded _ => plain_once ?_
  cases uploaded with
  | error error => cases error <;> trivial
  | ok file =>
      apply Prog.only_bind (quiet_within (getFile_quiet file.id))
      intro found
      cases found with
      | none => trivial
      | some refreshed => exact result_within (quiet_within (availability_quiet _))

theorem program_once (job : Job) : Once insertsFile false (program platform job) := by
  cases job with
  | upload request =>
      exact Prog.informed_bind (upload_handler_once request) fun _ _ _ => trivial
  | _ =>
      apply plain_once
      apply Prog.only_mono (program_within _)
      intro request within
      cases request with
      | commit writes =>
          rintro write member file rfl
          exact within _ member
      | _ => trivial

end Programs

section Runs
variable {platform : Platform} {clock : Nat} {labels : List ServiceLabel} {config : ServiceConfig}

theorem deployed_idle (thread : Tid) (job : Job) (rest : Async Outcome) :
    (deployed clock).threads thread ≠ .running job rest := nofun

theorem log_committed (run : Run (Step (service platform)) (deployed clock) labels config)
    {thread : Tid} {writes : List Write} (logged : (thread, writes) ∈ config.shared.log) :
    .act thread (.commit writes) () ∈ labels := by
  induction run with
  | refl => cases logged
  | @next middle last labels label ran taken ih =>
      have earlier : (thread, writes) ∈ middle.shared.log →
          .act thread (.commit writes) () ∈ labels ++ [label] := fun member =>
        List.mem_append_left _ (ih member)
      cases taken with
      | start _ _ => exact earlier logged
      | fail _ => exact earlier logged
      | finish _ => exact earlier logged
      | env done =>
          rw [(environment_undisturbed _ done).log] at logged
          exact earlier logged
      | @act moving _ request _ answer _ _ done =>
          change (thread, writes) ∈ Shared.log _ at logged
          rw [exec_log done] at logged
          rcases List.mem_append.mp logged with old | new
          · exact earlier old
          · cases request with
            | commit committed =>
                obtain ⟨rfl, rfl⟩ := Prod.mk.inj (List.mem_singleton.mp new)
                exact List.mem_append_right _ (List.mem_singleton.mpr rfl)
            | _ => cases new

theorem uploaded_single (run : Run (Step (service platform)) (deployed clock) labels config)
    {thread : Tid} (api : thread ≠ .worker) {file other : File} {shards rows : List Shard}
    (uploaded : Uploaded config.shared thread file shards)
    (again : Uploaded config.shared thread other rows) : file = other := by
  have single : (service platform).restarts thread = false := decide_eq_false api
  have asked : ∀ (file : File) (shards : List Shard), asks insertsFile thread
      (.act thread (.commit (Transaction.upload file shards).writes) () : ServiceLabel) = true := by
    intro file shards
    simp [asks, insertsFile, Transaction.writes]
  have same := run_asked run rfl single (fun job _ => program_once job)
    (log_committed run uploaded) (log_committed run again) (asked _ _) (asked _ _)
  cases same
  rfl

theorem uploaded_answered (run : Run (Step (service platform)) (deployed clock) labels config)
    {thread : Tid} {original file : File} {shards : List Shard} {request : UploadRequest}
    {states : Availability} (uploaded : Uploaded config.shared thread original shards)
    (finished : .finish thread (.upload request) (.response ⟨201, .fileOut file states⟩) ∈ labels) :
    file.id = original.id := by
  obtain ⟨first, second, left, right, rfl, ran, taken, rest⟩ := run_member run finished
  obtain ⟨same, promise⟩ := service_step ran taken
  obtain ⟨filename, contentType, data, answered, _, began, rows, -, -, body, logged, -⟩ :=
    promise rfl
  cases body
  have kept : Uploaded config.shared thread
      (uploadedFile platform (uploadOf request filename contentType data) file.id began) rows := by
    refine run_life (fun _ _ _ _ life => life_log life) (.next ran taken) rest ?_
    rw [same]
    exact logged
  have api : thread ≠ .worker := by
    rintro rfl
    cases taken with
    | finish at_ret =>
        obtain ⟨_, _, _, _, -, -, started, -⟩ :=
          run_member ran (run_started ran (deployed_idle .worker) at_ret)
        cases started with
        | start _ may => cases may
  have one := uploaded_single run api kept uploaded
  exact one ▸ rfl

/-- Behind every file there is an upload of it. -/
theorem origin_upload (run : Run (Step (service platform)) (deployed clock) labels config)
    {file : File} (origin : Origin file config.shared) :
    ∃ uploader upload contentType data, .start uploader (.upload upload) ∈ labels ∧
      upload.upload = some (file.originalName, contentType, data) ∧
      data.length ≤ upload.settings.maxUploadBytes ∧ upload.userId = file.ownerUserId ∧
      platform.sha256Hex data = file.checksumSha256 ∧
      Made platform (· ∈ labels) uploader upload.userId file.id file.originalName data := by
  obtain ⟨uploader, original, shards, uploaded, same⟩ := origin
  obtain ⟨first, second, left, right, rfl, ran, taken, -⟩ :=
    run_member run (log_committed run uploaded)
  cases taken with
  | @act _ job _ _ _ _ at_op done =>
      have only := run_programs (fun _ job rest => rest.Only (Within (inserts platform job)))
        (fun _ job _ => program_inserts job) (fun _ _ _ _ answer only => only.2 answer) ran
        (fun _ _ _ running => absurd running (deployed_idle _ _ _)) uploader job _ at_op
      have began := run_started ran (deployed_idle uploader) at_op
      have mine := only.1 (.insertFile original) (by simp [Transaction.writes])
      cases job with
      | upload request =>
          obtain ⟨filename, contentType, data, fileId, began_at, given, small, rfl⟩ := mine
          obtain ⟨id, owner, named, -, checksum, -⟩ := same
          refine ⟨uploader, request, contentType, data, List.mem_append_left _ began, named ▸ given,
            small, owner.symm, checksum.symm, ?_, ?_⟩
          · exact ⟨_, shards, List.mem_append_right _ List.mem_cons_self, id.symm, rfl, named.symm,
              rfl⟩
          · intro other answered states finished
            exact (uploaded_answered run uploaded finished).trans id.symm
      | _ => exact mine.elim

theorem selected_origin (run : Run (Step (service platform)) (deployed clock) labels config)
    {thread : Tid} {condition : Db → File → Bool} {rows : List File}
    (asked : .act thread (.selectFiles condition) rows ∈ labels) {file : File}
    (member : file ∈ rows) :
    Origin file config.shared ∧ ∃ db, condition db file = true := by
  obtain ⟨first, second, left, right, rfl, ran, taken, rest⟩ := run_member run asked
  have step := taken
  cases taken with
  | act at_op done =>
      obtain ⟨order, same⟩ := Option.ite_none_right_eq_some.mp done
      obtain ⟨present, selected⟩ := List.mem_filter.mp (order.mem_iff.mp member)
      obtain ⟨uploader, original, shards, uploaded, columns⟩ :=
        origin_of (service_safe ran).inv present
      refine ⟨⟨uploader, original, shards, ?_, columns⟩, left.shared.db, selected⟩
      have kept : Uploaded left.shared uploader original shards → Uploaded config.shared uploader
          original shards := by
        intro start
        refine run_life (fun _ _ _ _ life => life_log life) (.next ran step) rest ?_
        cases same
        exact start
      exact kept uploaded

theorem link_handed (run : Run (Step (service platform)) (deployed clock) labels config)
    {issuer : Tid} {link : LinkRequest} {status : Nat} {out : LinkOut}
    (finished : .finish issuer (.createLink link) (.response ⟨status, .link out⟩) ∈ labels) :
    ∃ (file : File) (time : Nat),
      .start issuer (.createLink link) ∈ labels ∧ .act issuer .now time ∈ labels ∧
      (link.settings.minTtlSeconds : Int) ≤ link.ttlSeconds ∧
      link.ttlSeconds ≤ link.settings.maxTtlSeconds ∧
      (out.expiresAt : Int) = time + link.ttlSeconds ∧ Origin file config.shared ∧
      file.id = link.fileId ∧ file.ownerUserId = link.userId ∧
      out.sig = sign platform link.settings.secretKey link.settings.secretKeyId file.id
        out.expiresAt file.linkVersion := by
  let fact (told : List (Answered Res)) (outcome : Outcome) : Prop :=
    ∀ response, outcome = .response response → LinkFrom platform link told response
  have shows : Shows fact [] (program platform (.createLink link)) := by
    apply shows_map
    apply Prog.informed_mono (createLink_shows link)
    rintro told response held _ ⟨rfl⟩
    exact held
  obtain ⟨early, late, rest, rfl, held⟩ := run_told run (deployed_idle issuer) finished shows
  obtain ⟨rows, file, time, asked, member, clocked, low, high, expires, signed⟩ :=
    held _ rfl out rfl
  have inside : ∀ label ∈ late, label ∈
      early ++ .start issuer (.createLink link) :: late ++
        .finish issuer (.createLink link) (.response ⟨status, .link out⟩) :: rest := by
    intro label found
    simp [found]
  obtain ⟨origin, _, selected⟩ := selected_origin run (inside _ (answersOf_mem asked)) member
  simp only [owned, Bool.and_eq_true, decide_eq_true_eq] at selected
  obtain ⟨⟨named, owner⟩, -⟩ := selected
  exact ⟨file, time, by simp, inside _ (answersOf_mem clocked), low, high, expires, origin, named,
    owner, signed⟩

theorem verified_link {keys : Keys} {settings : Settings} {request : DownloadRequest}
    {claims : LinkClaims} {time : Nat} {out : LinkOut} {fileId : Uuid} {linkVersion : Nat}
    (tags : TagsDistinct platform) (settled : settings.accepted platform.unicode = true)
    (listed : ∀ entry ∈ keys, keyIdPattern entry.1 = true)
    (verified : verify platform keys request.fileId request.exp request.v request.kid request.sig
      time = .ok claims)
    (carried : request.sig = some out.sig)
    (signed : out.sig = sign platform settings.secretKey settings.secretKeyId fileId out.expiresAt
      linkVersion) :
    uuidOf platform.unicode request.fileId = some fileId ∧ claims.fileId = fileId ∧
      time < out.expiresAt := by
  obtain ⟨_, _, kid, sig, -, -, -, given, accepted⟩ := accepted_of_verify verified
  obtain ⟨key, known, tag⟩ := accepted.signed
  obtain rfl : out.sig = sig := Option.some.inj (carried.symm.trans given)
  have member : (kid, key) ∈ keys := Assoc.mem_of_lookup _ _ _ known
  have pattern : keyIdPattern settings.secretKeyId = true := by
    simp only [Settings.accepted, Bool.and_eq_true, decide_eq_true_eq] at settled
    exact settled.1.2.1
  have same := utf8_injective tag
  rw [signed] at same
  obtain ⟨-, named, expires, -⟩ := sign_injective tags pattern (listed _ member) same
  refine ⟨named ▸ accepted.parsed, named.symm, ?_⟩
  have live := accepted.live
  omega

/-- A reader about to be sent a file, on a signature that was handed out. -/
theorem reader_granted (distinct : Function.Injective platform.sha256Hex)
    (tags : TagsDistinct platform)
    (run : Run (Step (service platform)) (deployed clock) labels config)
    (configured : Configured platform labels) {reader : Tid} {request : DownloadRequest}
    {status : Nat} {bytes : Bytes} {name : Text}
    (answering : config.threads reader =
      .running (.download request) (.ret (.response ⟨status, .content bytes name⟩)))
    (repeats : ∀ sig, request.sig = some sig → Tagged platform request.settings sig →
      ∃ issuer link status out,
        .finish issuer (.createLink link) (.response ⟨status, .link out⟩) ∈ labels ∧
          out.sig = sig) :
    ∃ upload link out, Granted platform labels reader request bytes name upload link out := by
  let fact (told : List (Answered Res)) (outcome : Outcome) : Prop :=
    ∀ response, outcome = .response response → ReadFrom platform request told response
  have shows : Shows fact [] (program platform (.download request)) := by
    apply shows_map
    apply Prog.informed_mono (downloadFile_shows request)
    rintro told response held _ ⟨rfl⟩
    exact held
  obtain ⟨front, back, rfl, advances⟩ := run_transcript run (deployed_idle reader) answering
  obtain ⟨keys, time, claims, rows, file, listed, clocked, verified, asked, member, rfl, checked⟩ :=
    advances_shows advances shows _ rfl bytes name rfl
  have inside : ∀ label ∈ back, label ∈ front ++ .start reader (.download request) :: back := by
    intro label found
    simp [found]
  have settled : request.settings.accepted platform.unicode = true :=
    configured reader (.download request) _ (by simp) rfl
  obtain ⟨-, patterns⟩ := signingKeys_accepted settled listed
  -- the signature verified, so a response has handed it out
  obtain ⟨_, _, kid, sig, -, -, -, given, accepted⟩ := accepted_of_verify verified
  obtain ⟨key, known, tag⟩ := accepted.signed
  obtain ⟨issuer, link, code, out, handed, rfl⟩ := repeats sig given
    ⟨keys, kid, key, _, _, _, listed, known, utf8_injective tag⟩
  obtain ⟨linked, issued, started, clocked_issue, low, high, expires, origin, named, owner,
    signed⟩ := link_handed run handed
  have issuing : link.settings.accepted platform.unicode = true :=
    configured issuer (.createLink link) _ started rfl
  obtain ⟨parsed, claimed, live⟩ := verified_link tags issuing patterns verified given signed
  -- the file that was read is the one the link was made for
  obtain ⟨source, _, selected⟩ := selected_origin run (inside _ (answersOf_mem asked)) member
  rw [decide_eq_true_eq, claimed] at selected
  obtain ⟨uploader, upload, contentType, data, began, content, small, mine, checksum, made⟩ :=
    origin_upload run source
  have same_owner : linked.ownerUserId = file.ownerUserId := by
    obtain ⟨_, original, _, uploaded, columns⟩ := origin
    obtain ⟨_, other, _, uploaded', columns'⟩ := source
    obtain ⟨-, rfl, -⟩ := (service_safe run).inv.uploaded_once _ _ _ _ _ _ uploaded uploaded'
      (columns.1.symm.trans (selected.symm.trans columns'.1))
    exact columns.2.1.trans columns'.2.1.symm
  have whole : bytes = data := distinct (checked.trans checksum.symm)
  refine ⟨upload, link, out, ?_⟩
  constructor
  case uploaded =>
    have same : file.id = link.fileId := selected.trans named
    exact ⟨uploader, contentType, began, whole ▸ content, whole ▸ small, same ▸ whole ▸ made⟩
  case handed => exact ⟨issuer, code, issued, handed, clocked_issue, expires⟩
  case owner => rw [mine, ← same_owner, owner]
  case lifetime => exact ⟨low, high⟩
  case file => rw [parsed, named]
  case carried => exact given
  case live => exact ⟨time, inside _ (answersOf_mem clocked), live⟩

/-- Bytes leave the service only as an upload's, to a request that carries a
live link its owner was handed. -/
theorem content_granted (platform : Platform) (distinct : Function.Injective platform.sha256Hex)
    (tags : TagsDistinct platform) (clock : Nat) (labels : List ServiceLabel)
    (config : ServiceConfig) (run : Run (Step (service platform)) (deployed clock) labels config)
    (configured : Configured platform labels) (unforged : Unforged platform labels)
    (early late : List ServiceLabel) (reader : Tid) (request : DownloadRequest) (status : Nat)
    (bytes : Bytes) (name : Text)
    (answered : labels = early ++
      .finish reader (.download request) (.response ⟨status, .content bytes name⟩) :: late) :
    ∃ upload link out, Granted platform early reader request bytes name upload link out := by
  obtain ⟨before, ran, rest⟩ := run_split run early _ answered
  obtain ⟨after, taken, -⟩ := run_uncons rest
  cases taken with
  | finish at_ret =>
      apply reader_granted distinct tags ran ?_ at_ret
      · intro sig given tagged
        obtain ⟨front, back, rfl, -⟩ := run_transcript ran (deployed_idle reader) at_ret
        obtain ⟨issuer, link, code, out, handed, same⟩ := unforged front _ reader request sig
          (by rw [answered, List.append_assoc, List.cons_append]) given tagged
        exact ⟨issuer, link, code, out, List.mem_append_left _ handed, same⟩
      · intro thread job settings started held
        exact configured thread job settings (answered ▸ List.mem_append_left _ started) held

end Runs

def handedOut : ServiceLabel → Option Text
  | .finish _ (.createLink _) (.response ⟨_, .link out⟩) => some out.sig
  | _ => none

def carriedBy : ServiceLabel → Option Text
  | .start _ (.download request) => request.sig
  | _ => none

theorem handedOut_finish {label : ServiceLabel} {sig : Text} (handed : handedOut label = some sig) :
    ∃ issuer link status out, label = .finish issuer (.createLink link)
      (.response ⟨status, .link out⟩) ∧ out.sig = sig := by
  unfold handedOut at handed
  split at handed
  · exact ⟨_, _, _, _, rfl, Option.some.inj handed⟩
  · cases handed

def settled (platform : Platform) : ServiceLabel → Bool
  | .start _ job => (settingsOf job).all fun settings => settings.accepted platform.unicode
  | _ => true

def sent : ServiceLabel → Bool
  | .finish _ (.download _) (.response response) =>
      decide (response = ⟨200, .content [7] ['f']⟩)
  | _ => false

theorem content_granted_small : ∃ labels config early late reader request upload link out,
    Run (Step (service plain)) (deployed 0) labels config ∧
    labels = early ++
      .finish reader (.download request) (.response ⟨200, .content [7] ['f']⟩) :: late ∧
    Granted plain early reader request [7] ['f'] upload link out := by
  obtain ⟨labels, config, run, passed⟩ := drive_reaches (service plain) (deployed 0)
    (AuditTrail.downloadedOnce ++ [.finish (.api 2)])
    (fun labels _ => echoes handedOut carriedBy [] labels && labels.all (settled plain) &&
      labels.any sent)
    (by decide +kernel)
  simp only [Bool.and_eq_true] at passed
  obtain ⟨⟨repeats, settles⟩, sends⟩ := passed
  have configured : Configured plain labels := by
    intro thread job settings started held
    have checked := List.all_eq_true.mp settles _ started
    rw [settled, held] at checked
    exact checked
  have unforged : Unforged plain labels := by
    rintro early late thread request sig rfl given -
    obtain ⟨label, member, handed⟩ := (echoes_seen repeats given).resolve_left List.not_mem_nil
    obtain ⟨issuer, link, status, out, rfl, same⟩ := handedOut_finish handed
    exact ⟨issuer, link, status, out, member, same⟩
  obtain ⟨label, member, last⟩ := List.any_eq_true.mp sends
  unfold sent at last
  split at last
  · rename_i reader request response
    obtain rfl := of_decide_eq_true last
    obtain ⟨early, late, whole⟩ := List.append_of_mem member
    obtain ⟨upload, link, out, granted⟩ := content_granted plain plain_sha256Hex plain_hmacSha256 0
      labels config run configured unforged early late reader request 200 [7] ['f'] whole
    exact ⟨labels, config, early, late, reader, request, upload, link, out, run, whole, granted⟩
  · cases last

end SecureFileSystem.Entitlement
