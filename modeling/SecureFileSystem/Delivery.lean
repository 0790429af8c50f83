import SecureFileSystem.Entitlement
import SecureFileSystem.Gatekeeping

/-!
From the client that uploads to the client that downloads: API keys, signed
links, the database and the nodes together. Whoever is sent a file is sent what
one user has uploaded under their key, on a link handed out to a request under
a key of the same user.
-/

namespace SecureFileSystem.Delivery

open Base Database Session Program Transition RelyGuarantee Uuid Filenames Signing Routers Service
  Links Entitlement Guarantees Admission Gatekeeping

def Numbered (world : World) (index : Nat) (request : HttpRequest) : Prop :=
  ∃ visit, world.visits[index]? = some visit ∧ visit.request = request

section Deployment
variable (platform : Platform) (category : Char → Category) (site : Nat → Instance)
  (clock : Nat) (monotonic : ℚ)

/-- A client can only repeat a signature that a response has handed out before
its request came. -/
def Repeating (labels : List Admission.Label) : Prop :=
  ∀ early late request fileId exp v kid sig, labels = early ++ .arrive request :: late →
    request.call = .downloadFile fileId exp v kid (some sig) →
    Tagged platform (site request.process).settings sig →
      ∃ index link status out, .serve (.finish (.api index) (.createLink link)
        (.response ⟨status, .link out⟩)) ∈ early ∧ out.sig = sig

/-- How these bytes and this name come to the request `reader`: from the upload
of `sender` that made the file, on the link `out` to that file that `asker` was
handed, both under keys of one user. -/
structure Delivered (earlier : List Admission.Label) (world : World) (reader : Nat) (bytes : Bytes)
    (name : Text) (userId fileId : Uuid) (sender asker : HttpRequest) (out : LinkOut) : Prop where
  uploaded : ∃ uploader filename contentType, Numbered world uploader sender ∧
    sender.call = .own (.uploadFile (some (filename, contentType, bytes))) ∧
    name = sanitizeFilename platform.unicode category filename ∧
    Made platform (fun label => .serve label ∈ earlier) (.api uploader) userId fileId name bytes
  uploader : Vouched platform category site clock monotonic earlier sender.authorization userId
  handed : ∃ issuer link status, ∃ (ttlSeconds : Int) (time : Nat),
    Numbered world issuer asker ∧ asker.call = .own (.createLink (some fileId) (.request ttlSeconds)) ∧
    .serve (.finish (.api issuer) (.createLink link) (.response ⟨status, .link out⟩)) ∈ earlier ∧
    .serve (.act (.api issuer) .now time) ∈ earlier ∧ (out.expiresAt : Int) = time + ttlSeconds
  owner : Vouched platform category site clock monotonic earlier asker.authorization userId
  carried : ∃ request text exp v kid, Numbered world reader request ∧
    request.call = .downloadFile text exp v kid (some out.sig) ∧
    uuidOf platform.unicode text = some fileId
  live : ∃ time : Nat, .serve (.act (.api reader) .now time) ∈ earlier ∧ time < out.expiresAt

end Deployment

section Requests
variable {platform : Platform} {category : Char → Category} {site : Nat → Instance}
  {clock : Nat} {monotonic : ℚ} {labels : List Admission.Label} {inner : List ServiceLabel}
  {world : World} {visit : Visit}

theorem commissioned_upload {upload : UploadRequest}
    (commissioned : Commissioned platform category site clock monotonic labels visit
      (.upload upload)) :
    ∃ form, visit.request.call = .own (.uploadFile form) ∧
      upload.upload = form.map (uploaded platform category upload.settings) ∧
      Vouched platform category site clock monotonic labels visit.request.authorization
        upload.userId := by
  generalize same : Job.upload upload = job at commissioned
  cases commissioned with
  | download call asked => cases same
  | @own endpoint command userId allowed call valid vouched asked =>
      cases command with
      | uploadFile form =>
          cases same
          rw [validated_endpoint valid] at call
          exact ⟨form, call, rfl, vouched⟩
      | _ => cases same

theorem commissioned_link {link : LinkRequest}
    (commissioned : Commissioned platform category site clock monotonic labels visit
      (.createLink link)) :
    visit.request.call = .own (.createLink (some link.fileId) (.request link.ttlSeconds)) ∧
      link.settings = (site visit.request.process).settings ∧
      Vouched platform category site clock monotonic labels visit.request.authorization
        link.userId := by
  generalize same : Job.createLink link = job at commissioned
  cases commissioned with
  | download call asked => cases same
  | @own endpoint command userId allowed call valid vouched asked =>
      cases command with
      | createLink fileId ttlSeconds =>
          cases same
          rw [validated_endpoint valid] at call
          exact ⟨call, rfl, vouched⟩
      | _ => cases same

theorem commissioned_download {request : DownloadRequest}
    (commissioned : Commissioned platform category site clock monotonic labels visit
      (.download request)) :
    visit.request.call =
        .downloadFile request.fileId request.exp request.v request.kid request.sig ∧
      request.settings = (site visit.request.process).settings := by
  generalize same : Job.download request = job at commissioned
  cases commissioned with
  | download call asked =>
      cases same
      exact ⟨call, rfl⟩
  | @own endpoint command userId allowed call valid vouched asked =>
      cases command <;> cases same

theorem uploaded_whole {settings : Configuration.Settings}
    {form : Option (Option Text × Option Text × Bytes)} {name contentType : Text} {bytes : Bytes}
    (given : form.map (uploaded platform category settings) = some (name, contentType, bytes))
    (small : bytes.length ≤ settings.maxUploadBytes) :
    ∃ filename type, form = some (filename, type, bytes) ∧
      name = sanitizeFilename platform.unicode category filename := by
  obtain ⟨⟨filename, type, data⟩, rfl, same⟩ := Option.map_eq_some_iff.mp given
  cases same
  have whole : data.take (settings.maxUploadBytes + 1) = data := by
    apply List.take_of_length_le
    rw [List.length_take] at small
    omega
  exact ⟨filename, type, by rw [whole], rfl⟩

theorem returned_request {visits : List Visit} {own : ServiceLabel}
    (member : visit ∈ returned visits own) : ∃ old ∈ visits, visit.request = old.request := by
  rcases returned_cases member with same | ⟨old, present, response, rfl⟩
  · exact ⟨visit, same, rfl⟩
  · exact ⟨old, present, rfl⟩

/-- Every request in the world has come to it. -/
theorem run_arrived (run : Reaches platform category site clock monotonic labels world) :
    ∀ visit ∈ world.visits, .arrive visit.request ∈ labels := by
  -- steps change how far a request has come, never the request
  induction run with
  | refl => exact fun visit member => absurd member List.not_mem_nil
  | @next middle last labels label ran taken ih =>
      have old : ∀ visit ∈ middle.visits, .arrive visit.request ∈ labels ++ [label] :=
        fun visit member => List.mem_append_left _ (ih visit member)
      intro visit member
      cases taken with
      | arrive request =>
          rcases List.mem_append.mp member with earlier | new
          · exact old visit earlier
          · rw [List.mem_singleton.mp new]
            exact List.mem_append_right _ List.mem_cons_self
      | proceed done =>
          obtain ⟨other, after, spent, job, found, turned, rfl⟩ := proceed_cases done
          rcases List.mem_or_eq_of_mem_set member with earlier | rfl
          · exact old visit earlier
          · rw [(turn_slots turned).1]
            exact old other (List.mem_of_getElem? found)
      | @raise index other found resolving =>
          rcases List.mem_or_eq_of_mem_set member with earlier | rfl
          · exact old visit earlier
          · exact old other (List.mem_of_getElem? found)
      | serve within moved =>
          obtain ⟨other, present, same⟩ := returned_request member
          rw [same]
          exact old other present
      | account moved => exact old visit member

theorem worker_starts
    (history : History platform category site clock monotonic labels inner world) {job : Job}
    (started : .start .worker job ∈ inner) :
    (Service.service platform).starts .worker job = true := by
  obtain ⟨_, _, _, _, -, -, taken, -⟩ := run_member history.service started
  cases taken with
  | start idle may => exact may

theorem history_configured
    (history : History platform category site clock monotonic labels inner world)
    (accepted : ∀ process, (site process).settings.accepted platform.unicode = true) :
    Configured platform inner := by
  intro thread job settings started held
  cases thread with
  | worker =>
      have may := worker_starts history started
      cases job with
      | createLink request => cases may
      | download request => cases may
      | _ => cases held
  | api index =>
      obtain ⟨visit, -, -, commissioned⟩ := history.started index job started
      cases job with
      | createLink request =>
          cases held
          rw [(commissioned_link commissioned).2.1]
          exact accepted _
      | download request =>
          cases held
          rw [(commissioned_download commissioned).2]
          exact accepted _
      | _ => cases held

theorem history_upload
    (history : History platform category site clock monotonic labels inner world)
    {uploader : Tid} {upload : UploadRequest} (started : .start uploader (.upload upload) ∈ inner) :
    ∃ index sender form, Numbered world index sender ∧ sender.call = .own (.uploadFile form) ∧
      uploader = .api index ∧
      upload.upload = form.map (uploaded platform category upload.settings) ∧
      Vouched platform category site clock monotonic labels sender.authorization
        upload.userId := by
  cases uploader with
  | worker => cases worker_starts history started
  | api index =>
      obtain ⟨visit, found, -, commissioned⟩ := history.started index _ started
      obtain ⟨form, call, given, vouched⟩ := commissioned_upload commissioned
      exact ⟨index, visit.request, form, ⟨visit, found, rfl⟩, call, rfl, given, vouched⟩

/-- What the service has seen of an upload, the whole deployment has. -/
theorem history_made
    (history : History platform category site clock monotonic labels inner world)
    {uploader : Tid} {owner fileId : Uuid} {name : Text} {bytes : Bytes}
    (made : Made platform (· ∈ inner) uploader owner fileId name bytes) :
    Made platform (fun label => .serve label ∈ labels) uploader owner fileId name bytes := by
  constructor
  · obtain ⟨file, shards, committed, facts⟩ := made.inserted
    exact ⟨file, shards, history.shown _ committed rfl, facts⟩
  · intro request file states finished
    exact made.answered request file states (history.served _ finished)

theorem history_link
    (history : History platform category site clock monotonic labels inner world)
    {issuer : Tid} {link : LinkRequest} {outcome : Outcome}
    (finished : .finish issuer (.createLink link) outcome ∈ inner) :
    ∃ index asker, issuer = .api index ∧ Numbered world index asker ∧
      asker.call = .own (.createLink (some link.fileId) (.request link.ttlSeconds)) ∧
      Vouched platform category site clock monotonic labels asker.authorization link.userId := by
  obtain ⟨first, second, left, right, rfl, ran, taken, -⟩ := run_member history.service finished
  cases taken with
  | finish at_ret =>
      have started : .start issuer (.createLink link) ∈
          first ++ .finish issuer (.createLink link) outcome :: second :=
        List.mem_append_left _ (run_started ran (deployed_idle issuer) at_ret)
      cases issuer with
      | worker => cases worker_starts history started
      | api index =>
          obtain ⟨visit, found, -, commissioned⟩ := history.started index _ started
          obtain ⟨call, -, vouched⟩ := commissioned_link commissioned
          exact ⟨index, visit.request, rfl, ⟨visit, found, rfl⟩, call, vouched⟩

end Requests

section Runs
variable {platform : Platform} {category : Char → Category} {site : Nat → Instance}
  {clock : Nat} {monotonic : ℚ} {labels : List Admission.Label} {inner : List ServiceLabel}
  {world : World}

/-- A request about to be sent a file, in a run where signatures are repeated. -/
theorem reader_delivered (sane : Accounts.Sane platform) (tags : TagsDistinct platform)
    (accepted : ∀ process, (site process).settings.accepted platform.unicode = true)
    (run : Reaches platform category site clock monotonic labels world)
    (repeating : Repeating platform site labels) {reader : Nat} {request : DownloadRequest}
    {status : Nat} {bytes : Bytes} {name : Text}
    (answering : world.service.threads (.api reader) =
      .running (.download request) (.ret (.response ⟨status, .content bytes name⟩))) :
    ∃ userId fileId sender asker out, Delivered platform category site clock monotonic labels world
      reader bytes name userId fileId sender asker out := by
  obtain ⟨inner, history⟩ := run_history sane run
  obtain ⟨visit, found, -, commissioned⟩ := history.started reader _
    (run_started history.service (deployed_idle _) answering)
  obtain ⟨call, configured⟩ := commissioned_download commissioned
  -- the signature was handed out before the request came
  have repeats : ∀ sig, request.sig = some sig → Tagged platform request.settings sig →
      ∃ issuer link status out,
        .finish issuer (.createLink link) (.response ⟨status, .link out⟩) ∈ inner ∧
          out.sig = sig := by
    intro sig given tagged
    obtain ⟨early, late, rfl⟩ := List.append_of_mem
      (run_arrived run visit (List.mem_of_getElem? found))
    rw [given] at call
    rw [configured] at tagged
    obtain ⟨issuer, link, code, out, handed, same⟩ :=
      repeating early late visit.request _ _ _ _ sig rfl call tagged
    exact ⟨.api issuer, link, code, out, history.served _ (List.mem_append_left _ handed), same⟩
  -- what the service alone promises, read as requests of the deployment
  obtain ⟨upload, link, out, granted⟩ := reader_granted sane.collisionFree tags history.service
    (history_configured history accepted) answering repeats
  obtain ⟨uploader, contentType, began, given, small, made⟩ := granted.uploaded
  obtain ⟨index, sender, form, sent, sending, rfl, formed, vouched⟩ := history_upload history began
  obtain ⟨issuer, code, issued, handed, clocked_issue, expires⟩ := granted.handed
  obtain ⟨origin, asker, rfl, asked, asking, speaks⟩ := history_link history handed
  obtain ⟨time, clocked, live⟩ := granted.live
  refine ⟨upload.userId, link.fileId, sender, asker, out, ?_⟩
  constructor
  case uploaded =>
    obtain ⟨filename, type, rfl, named⟩ := uploaded_whole (formed.symm.trans given) small
    exact ⟨index, filename, type, sent, sending, named, history_made history made⟩
  case uploader => exact vouched
  case handed =>
    exact ⟨origin, link, code, _, issued, asked, asking, history.shown _ handed rfl,
      history.shown _ clocked_issue rfl, expires⟩
  case owner => exact granted.owner ▸ speaks
  case carried =>
    rw [granted.carried] at call
    exact ⟨visit.request, _, _, _, _, ⟨visit, found, rfl⟩, call, granted.file⟩
  case live => exact ⟨time, history.shown _ clocked rfl, live⟩

end Runs

def keyedLink : HttpRequest where
  process := 0
  call := .own (.createLink (some 1) (.request 50))
  authorization := keyedUpload.authorization
  ip := none

def bareDownload : HttpRequest where
  process := 1
  call := .downloadFile smallDownload.fileId smallDownload.exp smallDownload.v smallDownload.kid
    smallDownload.sig
  authorization := none
  ip := none

def serves (moves : List ServiceMove) : List Choice := moves.map .serve

/-- An upload, a link and a download, each by one request. -/
def deliveredOnce : List Choice :=
  Accounts.firstUser.map .account ++
  serves ([1, 2, 3].map fun id => .env (.register (healthyNode id))) ++
  [.arrive keyedUpload, .proceed 0 0, .proceed 0 0, .proceed 0 0] ++
  serves (prompts (.api 0) 8 ++ delivers [0, 1] ++ prompts (.api 0) 4 ++ [.finish (.api 0)]) ++
  [.arrive keyedLink, .proceed 1 0, .proceed 1 0, .proceed 1 0] ++
  serves (prompts (.api 1) 3 ++ [.finish (.api 1)]) ++
  [.arrive bareDownload, .proceed 2 0, .proceed 2 0] ++
  serves (prompts (.api 2) 4 ++ delivers [2] ++ prompts (.api 2) 2 ++ [.finish (.api 2)])

def servedOut : Admission.Label → Option Text
  | .serve (.finish (.api _) (.createLink _) (.response ⟨_, .link out⟩)) => some out.sig
  | _ => none

def broughtBack : Admission.Label → Option Text
  | .arrive request =>
      match request.call with
      | .downloadFile _ _ _ _ sig => sig
      | .own _ => none
  | _ => none

def sentOut : Admission.Label → Bool
  | .serve (.finish (.api _) (.download _) (.response response)) =>
      decide (response = ⟨200, .content [7] ['f']⟩)
  | _ => false

end SecureFileSystem.Delivery
