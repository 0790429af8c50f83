import SecureFileSystem.Admission

/-!
Who gets through to the service. Every handler that runs was begun for a
request whose header carried the current key of the user it runs for, holds a
slot where it moves a file, and was counted by its limiter; what the service
does then is what it does by itself.
-/

namespace SecureFileSystem.Gatekeeping

open Base Database Session Program Transition RelyGuarantee Uuid Filenames Routers Service
  Guarantees Admission

section History
variable (platform : Platform) (category : Char → Category) (site : Nat → Instance)
  (clock : Nat) (monotonic : ℚ)

/-- What a deployment can come to by these steps. -/
abbrev Reaches (labels : List Admission.Label) (world : World) : Prop :=
  Run (Admission.Step platform category site) (opened site clock monotonic) labels world

/-- At some moment the header carried the key that was then the user's. -/
def Vouched (labels : List Admission.Label) (authorization : Option Text) (userId : Uuid) : Prop :=
  ∃ first second middle apiKey, labels = first ++ second ∧
    Reaches platform category site clock monotonic first middle ∧
    Accounts.Current platform middle.accounts.shared userId apiKey ∧
    Accounts.Presents platform authorization apiKey

/-- The job is what the request asks for, for a user it speaks for, and with the
answer of its limiter. -/
inductive Commissioned (labels : List Admission.Label) (visit : Visit) : Job → Prop
  | download {fileId : Text} {exp v kid sig : Option Text} {allowed : Bool} {time : ℚ}
      (call : visit.request.call = .downloadFile fileId exp v kid sig)
      (asked : visit.asked = some (.download, ⟨ipKey visit.request.ip, time, allowed⟩)) :
      Commissioned labels visit (.download ⟨(site visit.request.process).settings, allowed, fileId,
        exp, v, kid, sig, visit.request.ip⟩)
  | own {endpoint : Endpoint} {command : Admission.Command} {userId : Uuid} {allowed : Bool}
      (call : visit.request.call = .own endpoint) (valid : endpoint.validated = some command)
      (vouched : Vouched platform category site clock monotonic labels visit.request.authorization
        userId)
      (asked : command.limited = true →
        ∃ time, visit.asked = some (.api, ⟨userKey userId, time, allowed⟩)) :
      Commissioned labels visit (command.job platform category
        (site visit.request.process).settings visit.request.ip userId allowed)

def begun : Phase → Bool
  | .handling | .leaving _ | .closed _ => true
  | _ => false

/-- What a run of the deployment is for its accounts and for its service. -/
structure History (labels : List Admission.Label) (inner : List ServiceLabel) (world : World) :
    Prop where
  sound : Sound site world
  accounts : ∃ own, Run (Program.Step (Accounts.scripts platform)) Accounts.migrated own
    world.accounts
  service : Run (Program.Step (Service.service platform)) (deployed clock) inner world.service
  served : ∀ label, .serve label ∈ labels → label ∈ inner
  shown : ∀ label ∈ inner, inside label = true → .serve label ∈ labels
  known : ∀ visit ∈ world.visits, ∀ userId endpoint, visit.phase = .known userId endpoint →
    Vouched platform category site clock monotonic labels visit.request.authorization userId
  started : ∀ index job, .start (.api index) job ∈ inner → ∃ visit,
    world.visits[index]? = some visit ∧ begun visit.phase = true ∧
      Commissioned platform category site clock monotonic labels visit job

end History

section Steps
variable {platform : Platform} {category : Char → Category} {site : Nat → Instance}
  {clock : Nat} {monotonic : ℚ} {labels : List Admission.Label} {inner : List ServiceLabel}
  {world next : World} {label : Admission.Label}

theorem vouched_more {authorization : Option Text} {userId : Uuid}
    (vouched : Vouched platform category site clock monotonic labels authorization userId)
    (more : List Admission.Label) :
    Vouched platform category site clock monotonic (labels ++ more) authorization userId := by
  obtain ⟨first, second, middle, apiKey, rfl, run, current, presents⟩ := vouched
  exact ⟨first, second ++ more, middle, apiKey, List.append_assoc _ _ _, run, current, presents⟩

theorem commissioned_more {visit after : Visit} {job : Job}
    (commissioned : Commissioned platform category site clock monotonic labels visit job)
    (request : after.request = visit.request) (asked : after.asked = visit.asked)
    (more : List Admission.Label) :
    Commissioned platform category site clock monotonic (labels ++ more) after job := by
  cases commissioned with
  | download call counted =>
      rw [← request] at call counted ⊢
      exact .download call (asked.trans counted)
  | own call valid vouched counted =>
      rw [← request] at call vouched ⊢
      refine .own call valid (vouched_more vouched more) fun limited => ?_
      rw [asked]
      exact counted limited

/-- Once its handler has begun, a request keeps what it asked. -/
theorem step_begun (taken : Admission.Step platform category site world label next) {index : Nat}
    {visit : Visit} (found : world.visits[index]? = some visit) (began : begun visit.phase = true) :
    ∃ after, next.visits[index]? = some after ∧ begun after.phase = true ∧
      after.request = visit.request ∧ after.asked = visit.asked := by
  have still : next.visits[index]? = some visit → ∃ after, next.visits[index]? = some after ∧
      begun after.phase = true ∧ after.request = visit.request ∧ after.asked = visit.asked :=
    fun same => ⟨visit, same, began, rfl, rfl⟩
  obtain ⟨inside, -⟩ := List.getElem?_eq_some_iff.mp found
  cases taken with
  | arrive request => exact still (by rw [List.getElem?_append_left inside, found])
  | @proceed moved time _ done =>
      obtain ⟨other, after, spent, job, there, turned, rfl⟩ := proceed_cases done
      by_cases same : moved = index
      · subst moved
        obtain rfl : visit = other := Option.some.inj (found.symm.trans there)
        refine ⟨after, List.getElem?_set_self inside, ?_⟩
        -- of the turns only the closing of its dependencies is left
        cases turned with
        | close phase => exact ⟨rfl, rfl, rfl⟩
        | unread phase _ => simp [begun, phase] at began
        | shed phase _ _ => simp [begun, phase] at began
        | acquire phase _ _ => simp [begun, phase] at began
        | pass phase _ => simp [begun, phase] at began
        | refuse phase _ => simp [begun, phase] at began
        | know phase _ _ => simp [begun, phase] at began
        | fetch phase _ _ => simp [begun, phase] at began
        | invalid phase => simp [begun, phase] at began
        | limit phase _ _ _ => simp [begun, phase] at began
        | plain phase _ _ => simp [begun, phase] at began
      · exact still ((List.getElem?_set_ne same).trans found)
  | @raise moved other there resolving =>
      have apart : moved ≠ index := by
        rintro rfl
        obtain rfl : visit = other := Option.some.inj (found.symm.trans there)
        cases phase : visit.phase with
        | _ => simp [phase, begun, Phase.resolving] at began resolving
      exact still ((List.getElem?_set_ne apart).trans found)
  | @serve label service within taken =>
      have leaves : ∀ moved response, ∃ after,
          (world.visits.modify moved (·.to (.leaving response)))[index]? = some after ∧
          begun after.phase = true ∧ after.request = visit.request ∧ after.asked = visit.asked := by
        intro moved response
        by_cases same : moved = index
        · subst moved
          exact ⟨visit.to (.leaving response), by simp [found], rfl, rfl, rfl⟩
        · exact ⟨visit, by simp [same, found], began, rfl, rfl⟩
      unfold returned at *
      split at still
      · exact leaves _ _
      · exact leaves _ _
      · exact ⟨visit, found, began, rfl, rfl⟩
  | account taken => exact still found

theorem turn_known {running : Instance} {users : List Accounts.User} {time : ℚ} {app spent : App}
    {visit after : Visit} {job : Option Job} {userId : Uuid} {endpoint : Endpoint}
    (turned : Turn platform category running users time app visit spent after job)
    (known : after.phase = .known userId endpoint) :
    after.request = visit.request ∧ ∃ user, user.id = userId ∧
      Accounts.getCurrentUser platform users visit.request.authorization = .ok user := by
  cases turned with
  | know phase call found =>
      cases known
      exact ⟨rfl, _, rfl, found⟩
  | _ => cases known

theorem authenticated (sane : Accounts.Sane platform)
    (ran : Reaches platform category site clock monotonic labels world)
    (accounts : ∃ own, Run (Program.Step (Accounts.scripts platform)) Accounts.migrated own
      world.accounts) {authorization : Option Text} {user : Accounts.User}
    (found : Accounts.getCurrentUser platform world.accounts.shared.users authorization =
      .ok user) :
    Vouched platform category site clock monotonic labels authorization user.id := by
  obtain ⟨own, run⟩ := accounts
  -- the table as it is now vouches for the header
  have consistent := (Accounts.run_onward sane run (Accounts.migrated_safe platform)).1.inv
  obtain ⟨-, apiKey, current, presents⟩ :=
    ((Accounts.consistent_authenticates sane consistent).exact authorization user).mp found
  exact ⟨labels, [], world, apiKey, (List.append_nil _).symm, ran, current, presents⟩

theorem turn_commissioned {users : List Accounts.User} {time : ℚ} {app spent : App}
    {visit after : Visit} {job : Job} (fitting : Fitting visit)
    (known : ∀ userId endpoint, visit.phase = .known userId endpoint →
      Vouched platform category site clock monotonic labels visit.request.authorization userId)
    (turned : Turn platform category (site visit.request.process) users time app visit spent after
      (some job)) :
    begun after.phase = true ∧
      Commissioned platform category site clock monotonic labels after job := by
  cases turned with
  | fetch phase call limit => exact ⟨rfl, .download call rfl⟩
  | limit phase valid limited limit =>
      simp only [Fitting, phase] at fitting
      exact ⟨rfl, .own fitting.1 valid (known _ _ phase) fun _ => ⟨_, rfl⟩⟩
  | plain phase valid unlimited =>
      simp only [Fitting, phase] at fitting
      refine ⟨rfl, .own fitting.1 valid (known _ _ phase) fun limited => ?_⟩
      rw [unlimited] at limited
      cases limited

theorem opened_history :
    History platform category site clock monotonic [] [] (opened site clock monotonic) := by
  constructor
  case sound => exact opened_sound clock monotonic
  case accounts => exact ⟨[], .refl⟩
  case service => exact .refl
  case served => exact fun _ member => absurd member List.not_mem_nil
  case shown => exact fun _ member => absurd member List.not_mem_nil
  case known => exact fun _ member => absurd member List.not_mem_nil
  case started => exact fun _ _ member => absurd member List.not_mem_nil

theorem started_more (history : History platform category site clock monotonic labels inner world)
    (taken : Admission.Step platform category site world label next) (index : Nat) (job : Job)
    (began : .start (.api index) job ∈ inner) : ∃ visit, next.visits[index]? = some visit ∧
      begun visit.phase = true ∧
      Commissioned platform category site clock monotonic (labels ++ [label]) visit job := by
  obtain ⟨visit, found, phase, commissioned⟩ := history.started index job began
  obtain ⟨after, there, still, request, asked⟩ := step_begun taken found phase
  exact ⟨after, there, still, commissioned_more commissioned request asked _⟩

theorem shown_more (history : History platform category site clock monotonic labels inner world)
    (own : ServiceLabel) (member : own ∈ inner) (within : inside own = true) :
    .serve own ∈ labels ++ [label] :=
  List.mem_append_left _ (history.shown own member within)

theorem known_more (history : History platform category site clock monotonic labels inner world)
    (same : ∀ visit ∈ next.visits, visit ∈ world.visits ∨
      ∀ userId endpoint, visit.phase ≠ .known userId endpoint) :
    ∀ visit ∈ next.visits, ∀ userId endpoint, visit.phase = .known userId endpoint →
      Vouched platform category site clock monotonic (labels ++ [label])
        visit.request.authorization userId := by
  intro visit member userId endpoint known
  rcases same visit member with old | other
  · exact vouched_more (history.known visit old userId endpoint known) _
  · exact absurd known (other userId endpoint)

theorem served_more (history : History platform category site clock monotonic labels inner world)
    (other : ∀ own, label ≠ .serve own) :
    ∀ own, .serve own ∈ labels ++ [label] → own ∈ inner := by
  intro own served
  rcases List.mem_append.mp served with old | new
  · exact history.served own old
  · exact absurd (List.mem_singleton.mp new).symm (other own)

/-- A step that is none of the service's: the service stays where it is. -/
theorem history_aside (history : History platform category site clock monotonic labels inner world)
    (taken : Admission.Step platform category site world label next)
    (aside : ∀ own, label ≠ .serve own) (service : next.service = world.service)
    (accounts : ∃ own, Run (Program.Step (Accounts.scripts platform)) Accounts.migrated own
      next.accounts)
    (known : ∀ visit ∈ next.visits, ∀ userId endpoint, visit.phase = .known userId endpoint →
      Vouched platform category site clock monotonic (labels ++ [label])
        visit.request.authorization userId) :
    History platform category site clock monotonic (labels ++ [label]) inner next := by
  constructor
  case sound => exact step_sound history.sound taken
  case accounts => exact accounts
  case service => exact service ▸ history.service
  case served => exact served_more history aside
  case shown => exact shown_more history
  case known => exact known
  case started => exact started_more history taken

theorem history_proceed (sane : Accounts.Sane platform)
    (history : History platform category site clock monotonic labels inner world)
    (ran : Reaches platform category site clock monotonic labels world) {index : Nat} {time : ℚ}
    (done : proceed platform category site world index time = some next) :
    ∃ more, History platform category site clock monotonic (labels ++ [.proceed index time]) more
      next := by
  have taken : Admission.Step platform category site world (.proceed index time) next :=
    .proceed done
  have sound := step_sound history.sound taken
  have kept := started_more history taken
  obtain ⟨visit, after, spent, job, found, turned, rfl⟩ := proceed_cases done
  obtain ⟨inside, -⟩ := List.getElem?_eq_some_iff.mp found
  have member := List.mem_of_getElem? found
  have aside : ∀ own, Admission.Label.proceed index time ≠ .serve own := by
    intro own same
    cases same
  have earlier := served_more history aside
  have knows : ∀ other ∈ world.visits.set index after, ∀ userId endpoint,
      other.phase = .known userId endpoint → Vouched platform category site clock monotonic
        (labels ++ [.proceed index time]) other.request.authorization userId := by
    intro other present userId endpoint known
    apply vouched_more
    rcases List.mem_or_eq_of_mem_set present with old | rfl
    · exact history.known other old userId endpoint known
    · obtain ⟨same, user, rfl, let_in⟩ := turn_known turned known
      rw [same]
      exact authenticated sane ran history.accounts let_in
  cases job with
  | none => exact ⟨inner, history_aside history taken aside rfl history.accounts knows⟩
  | some job =>
      -- the thread of this request has not been used, so it is idle
      have placed := history.sound.placed index
      rw [found] at placed
      obtain ⟨-, -, fresh⟩ := turn_placed turned (history.sound.fitting visit member) placed
      have idle : Idle (Service.service platform) (.api index)
          (world.service.threads (.api index)) := by
        rw [fresh (Option.some_ne_none _)]
        trivial
      have may : (Service.service platform).starts (.api index) job = true := by
        cases turned with
        | fetch => rfl
        | @limit _ _ command => cases command <;> rfl
        | @plain _ _ command => cases command <;> rfl
      refine ⟨inner ++ [.start (.api index) job], ?_⟩
      constructor
      case sound => exact sound
      case accounts => exact history.accounts
      case service => exact .next history.service (Program.Step.start idle may)
      case served => exact fun label served => List.mem_append_left _ (earlier label served)
      case shown =>
        intro label member within
        rcases List.mem_append.mp member with old | new
        · exact shown_more history label old within
        · rw [List.mem_singleton.mp new] at within
          cases within
      case known => exact knows
      case started =>
        intro other begins started
        rcases List.mem_append.mp started with old | new
        · exact kept other begins old
        · cases List.mem_singleton.mp new
          obtain ⟨phase, commissioned⟩ := turn_commissioned (history.sound.fitting visit member)
            (history.known visit member) turned
          exact ⟨after, List.getElem?_set_self inside, phase,
            commissioned_more commissioned rfl rfl _⟩

theorem returned_cases {visits : List Visit} {own : ServiceLabel} {visit : Visit}
    (member : visit ∈ returned visits own) :
    visit ∈ visits ∨ ∃ old ∈ visits, ∃ response, visit = old.to (.leaving response) := by
  have leaves : ∀ index response, visit ∈ visits.modify index (·.to (.leaving response)) →
      visit ∈ visits ∨ ∃ old ∈ visits, ∃ response, visit = old.to (.leaving response) := by
    intro index response inside
    rcases mem_modify inside with old | ⟨other, present, same⟩
    · exact Or.inl old
    · exact Or.inr ⟨other, present, response, same⟩
  unfold returned at member
  split at member
  · exact leaves _ _ member
  · exact leaves _ _ member
  · exact Or.inl member

theorem returned_known {visits : List Visit} {own : ServiceLabel} {visit : Visit}
    (member : visit ∈ returned visits own) :
    visit ∈ visits ∨ ∀ userId endpoint, visit.phase ≠ .known userId endpoint := by
  rcases returned_cases member with old | ⟨other, _, response, rfl⟩
  · exact Or.inl old
  · right
    intro userId endpoint same
    cases same

theorem history_step (sane : Accounts.Sane platform)
    (history : History platform category site clock monotonic labels inner world)
    (ran : Reaches platform category site clock monotonic labels world)
    (taken : Admission.Step platform category site world label next) :
    ∃ more, History platform category site clock monotonic (labels ++ [label]) more next := by
  -- A handler is started by `proceed` alone; the other steps leave what was
  -- commissioned as it is.
  cases taken with
  | proceed done => exact history_proceed sane history ran done
  | arrive request =>
      refine ⟨inner, history_aside history (.arrive request) (fun own same => by cases same) rfl
        history.accounts ?_⟩
      apply known_more history
      intro visit member
      rcases List.mem_append.mp member with old | new
      · exact Or.inl old
      · right
        intro userId endpoint same
        rw [List.mem_singleton.mp new] at same
        cases same
  | raise found resolving =>
      refine ⟨inner, history_aside history (.raise found resolving) (fun own same => by cases same)
        rfl history.accounts ?_⟩
      apply known_more history
      intro visit member
      rcases List.mem_or_eq_of_mem_set member with old | rfl
      · exact Or.inl old
      · right
        intro userId endpoint same
        cases same
  | account moved =>
      obtain ⟨own, run⟩ := history.accounts
      refine ⟨inner, history_aside history (.account moved) (fun own same => by cases same) rfl
        ⟨_, .next run moved⟩ ?_⟩
      exact known_more history fun visit member => Or.inl member
  | @serve own service within moved =>
      have taken : Admission.Step platform category site world (.serve own) _ :=
        .serve within moved
      refine ⟨inner ++ [own], ?_⟩
      constructor
      case sound => exact step_sound history.sound taken
      case accounts => exact history.accounts
      case service => exact .next history.service moved
      case served =>
        intro other served
        rcases List.mem_append.mp served with old | new
        · exact List.mem_append_left _ (history.served other old)
        · cases List.mem_singleton.mp new
          exact List.mem_append_right _ (List.mem_singleton.mpr rfl)
      case shown =>
        intro other member within
        rcases List.mem_append.mp member with old | new
        · exact shown_more history other old within
        · rw [List.mem_singleton.mp new]
          exact List.mem_append_right _ (List.mem_singleton.mpr rfl)
      case known => exact known_more history fun visit member => returned_known member
      case started =>
        intro index job started
        rcases List.mem_append.mp started with old | new
        · exact started_more history taken index job old
        · cases List.mem_singleton.mp new
          cases within

/-- Every run of the deployment has such a history. -/
theorem run_history (sane : Accounts.Sane platform)
    (run : Reaches platform category site clock monotonic labels world) :
    ∃ inner, History platform category site clock monotonic labels inner world := by
  -- the labels of the service grow by its own steps and by the handlers that begin
  induction run with
  | refl => exact ⟨[], opened_history⟩
  | next ran taken ih =>
      obtain ⟨inner, history⟩ := ih
      exact history_step sane history ran taken

end Steps

section Gates
variable (platform : Platform) (category : Char → Category) (site : Nat → Instance)
  (clock : Nat) (monotonic : ℚ)

/-- What holds behind the gates of a deployment. -/
structure Gated (labels : List Admission.Label) (world : World) : Prop where
  slots : ∀ process, (world.apps process).transferSlots + world.visits.countP (holds process) =
    (site process).maxConcurrentTransfers
  /-- a transfer that comes while all slots are held is shed, and no other is -/
  shed : ∀ index time visit next, world.visits[index]? = some visit → visit.phase = .arrived →
    visit.request.call.transfers = true →
    Admission.Step platform category site world (.proceed index time) next →
      next.visits[index]? = some (visit.to
        (if world.visits.countP (holds visit.request.process) =
            (site visit.request.process).maxConcurrentTransfers then .closed (some serverBusy)
          else .entered))
  /-- whatever a request was answered, its slot can be given back -/
  released : ∀ index time visit response, world.visits[index]? = some visit →
    visit.phase = .leaving response → ∃ next,
      Admission.Step platform category site world (.proceed index time) next ∧
        next.visits[index]? = some (visit.to (.closed response))
  /-- limiters that forget no debtor let no client through faster than its rate -/
  counted : Run (Guarded (Remembering site) (Admission.Step platform category site))
      (opened site clock monotonic) labels world →
    ∀ process limiter key s t, s ≤ t →
      (world.visits.countP (through process limiter key s t) : ℚ) ≤
        RateLimit.capacity ((site process).perMinute limiter) +
          RateLimit.refillPerSecond ((site process).perMinute limiter) * (t - s)
  /-- handlers in progress are those of requests in hand -/
  running : ∀ index job rest, world.service.threads (.api index) = .running job rest →
    ∃ visit, world.visits[index]? = some visit ∧ visit.phase = .handling ∧
      Commissioned platform category site clock monotonic labels visit job
  /-- the service does nothing that it would not do by itself -/
  service : ∃ inner, Run (Program.Step (Service.service platform)) (deployed clock) inner
      world.service ∧ (∀ label, .serve label ∈ labels ↔ label ∈ inner ∧ inside label = true) ∧
    ∀ index job, .start (.api index) job ∈ inner → ∃ visit, world.visits[index]? = some visit ∧
      Commissioned platform category site clock monotonic labels visit job

end Gates

section Runs
variable {platform : Platform} {category : Char → Category} {site : Nat → Instance}
  {clock : Nat} {monotonic : ℚ} {labels : List Admission.Label} {world : World}

theorem run_metered (run : Run (Guarded (Remembering site) (Admission.Step platform category site))
    (opened site clock monotonic) labels world) :
    Sound site world ∧ Metered site monotonic world := by
  induction run with
  | refl => exact ⟨opened_sound clock monotonic, opened_metered clock⟩
  | next _ taken ih => exact ⟨step_sound ih.1 taken.1, step_metered ih.1 ih.2 taken⟩

/-- No handler begins inside the service. -/
theorem run_inside (run : Reaches platform category site clock monotonic labels world)
    {own : ServiceLabel} (served : .serve own ∈ labels) : inside own = true := by
  obtain ⟨_, _, _, _, -, -, taken, -⟩ := run_member run served
  cases taken with
  | serve within _ => exact within

theorem run_account {perMinute : Nat} (positive : 1 ≤ perMinute) {start : ℚ}
    {calls : List RateLimit.Call} {state : RateLimit.State}
    (run : Run (Guarded (RateLimit.Forgiving perMinute) (RateLimit.Step perMinute)) ⟨[], start⟩
      calls state) (key : Text) {s t : ℚ} (order : s ≤ t) :
    RateLimit.Account perMinute key s t calls state := by
  -- the account of one key in one window, call by call
  induction run with
  | refl => exact RateLimit.account_start perMinute key s t start order
  | next _ taken ih => exact RateLimit.account_step perMinute positive key s t _ _ _ _ ih taken

def smallSite (_ : Nat) : Instance := ⟨smallSettings, 1, fun _ => 60⟩

def keyedUpload : HttpRequest where
  process := 0
  call := .own (.uploadFile (some (some ['f'], none, [7])))
  authorization := some ("Bearer ".toList ++ Accounts.apiKeyPrefix ++ Accounts.smallToken 'a')
  ip := none

def twoUploads : List Choice :=
  Accounts.firstUser.map .account ++
  [.arrive keyedUpload, .arrive keyedUpload, .proceed 0 0, .proceed 1 0, .proceed 0 0,
    .proceed 0 0]

def handlesOne (world : World) : Bool :=
  match world.service.threads (.api 0), world.visits with
  | .running (.upload _) _, [_, ⟨_, .closed (some response), _⟩] =>
      decide (response = serverBusy ∧ world.visits.countP (holds 0) = 1)
  | _, _ => false

end Runs

end SecureFileSystem.Gatekeeping
