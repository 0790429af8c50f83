import SecureFileSystem.Accounts
import SecureFileSystem.Filenames
import SecureFileSystem.Guarantees
import SecureFileSystem.RateLimit

/-!
What a request passes before its handler runs: `deps.py`, the dependencies of
the routes, and the state an API process keeps between requests. Any number of
API processes serve one database; whoever has no transfer slot, no current key
or no token left never reaches the service.
-/

namespace SecureFileSystem.Admission

open Base Database Session Program Transition RelyGuarantee Uuid SecureFileSystem.Configuration
  Filenames Routers Service Guarantees

inductive Limiter where
  | api
  | download
  deriving DecidableEq

structure Instance where
  settings : Settings
  maxConcurrentTransfers : Nat
  perMinute : Limiter → Nat

/-- `app.state`: the free slots of the semaphore, and both limiters with the
time they last saw. -/
structure App where
  transferSlots : Nat
  limiters : Limiter → RateLimit.Buckets
  monotonic : Limiter → ℚ

/-- The body of `POST /files/{file_id}/links`: a `LinkRequest`, something that is
not one, or no JSON at all though declared as JSON. -/
inductive LinkBody where
  | unreadable
  | invalid
  | request (ttlSeconds : Int)

/-- A request for a route with `user: CurrentUser`, as the client sent it:
`none` is a parameter that does not parse. -/
inductive Endpoint where
  | uploadFile (form : Option (Option Text × Option Text × Bytes))
  | listFiles (limit offset : Option Int)
  | getFile (fileId : Option Uuid)
  | createLink (fileId : Option Uuid) (body : LinkBody)
  | deleteFile (fileId : Option Uuid)

/-- The same once its parameters are validated. -/
inductive Command where
  | uploadFile (form : Option (Option Text × Option Text × Bytes))
  | listFiles (limit offset : Nat)
  | getFile (fileId : Uuid)
  | createLink (fileId : Uuid) (ttlSeconds : Int)
  | deleteFile (fileId : Uuid)

inductive Call where
  | own (endpoint : Endpoint)
  | downloadFile (fileId : Text) (exp v kid sig : Option Text)

structure HttpRequest where
  process : Nat
  call : Call
  authorization : Option Text
  /-- `client_ip` -/
  ip : Option Text

/-- `dependencies=[TransferSlot]` -/
def Call.transfers : Call → Bool
  | .own (.uploadFile _) | .downloadFile _ _ _ _ _ => true
  | _ => false

/-- FastAPI reads a declared body before any dependency runs. -/
def Call.unreadable : Call → Bool
  | .own (.createLink _ .unreadable) => true
  | _ => false

/-- `limit` is a `Query(ge=1, le=100)`, `offset` a `Query(ge=0)`. -/
def Endpoint.validated : Endpoint → Option Command
  | .uploadFile form => some (.uploadFile form)
  | .listFiles (some limit) (some offset) =>
      if 1 ≤ limit ∧ limit ≤ 100 ∧ 0 ≤ offset then some (.listFiles limit.toNat offset.toNat)
      else none
  | .listFiles _ _ => none
  | .getFile fileId => fileId.map .getFile
  | .createLink (some fileId) (.request ttlSeconds) => some (.createLink fileId ttlSeconds)
  | .createLink _ _ => none
  | .deleteFile fileId => fileId.map .deleteFile

def Command.endpoint : Command → Endpoint
  | .uploadFile form => .uploadFile form
  | .listFiles limit offset => .listFiles (some limit) (some offset)
  | .getFile fileId => .getFile (some fileId)
  | .createLink fileId ttlSeconds => .createLink (some fileId) (.request ttlSeconds)
  | .deleteFile fileId => .deleteFile (some fileId)

theorem validated_endpoint {endpoint : Endpoint} {command : Command}
    (valid : endpoint.validated = some command) : endpoint = command.endpoint := by
  unfold Endpoint.validated at valid
  split at valid
  · cases valid
    rfl
  · rename_i limit offset
    obtain ⟨⟨positive, _, counted⟩, same⟩ := Option.ite_none_right_eq_some.mp valid
    cases same
    rw [Command.endpoint, Int.toNat_of_nonneg counted, Int.toNat_of_nonneg (by omega)]
  · cases valid
  · obtain ⟨fileId, rfl, same⟩ := Option.map_eq_some_iff.mp valid
    cases same
    rfl
  · cases valid
    rfl
  · cases valid
  · obtain ⟨fileId, rfl, same⟩ := Option.map_eq_some_iff.mp valid
    cases same
    rfl

/-- The handlers that begin with `enforce_rate_limit`. -/
def Command.limited : Command → Bool
  | .uploadFile _ | .createLink _ _ => true
  | _ => false

def userKey (userId : Uuid) : Text := "user:".toList ++ uuidText userId

def ipKey (ip : Option Text) : Text := "ip:".toList ++ ip.getD "None".toList

def serverBusy : Response := httpException 503 "server busy, retry shortly"

/-- `transfer_slot` up to its `yield`; a semaphore that is not locked is acquired
without waiting. -/
def transferSlot (app : App) : Except Response App :=
  if app.transferSlots = 0 then .error serverBusy
  else .ok { app with transferSlots := app.transferSlots - 1 }

/-- The end of `async with slots`. -/
def App.release (app : App) : App := { app with transferSlots := app.transferSlots + 1 }

/-- `limiter.allow(key)`, at a time its clock has not passed yet. -/
def enforceRateLimit (running : Instance) (app : App) (limiter : Limiter) (key : Text) (time : ℚ) :
    Option (Bool × App) :=
  if app.monotonic limiter ≤ time then
    let (allowed, buckets) :=
      RateLimit.allow (running.perMinute limiter) (app.limiters limiter) key time
    some (allowed, { app with
      limiters := Function.update app.limiters limiter buckets
      monotonic := Function.update app.monotonic limiter time })
  else none

section Handlers
variable (platform : Platform) (category : Char → Category)

def uploaded (settings : Settings) :
    Option Text × Option Text × Bytes → Text × Text × Bytes
  | (filename, contentType, data) =>
      (sanitizeFilename platform.unicode category filename,
        sanitizeContentType platform.unicode contentType,
        data.take (settings.maxUploadBytes + 1))

def Command.job (settings : Settings) (ip : Option Text) (userId : Uuid) (allowed : Bool) :
    Command → Job
  | .uploadFile form => .upload ⟨settings, userId, allowed,
      form.map (uploaded platform category settings), ip⟩
  | .listFiles limit offset => .listFiles userId limit offset
  | .getFile fileId => .getFile userId fileId
  | .createLink fileId ttlSeconds => .createLink ⟨settings, userId, allowed, fileId, ttlSeconds, ip⟩
  | .deleteFile fileId => .deleteFile userId fileId ip

end Handlers

/-- How far a request has come. `none` in place of a response is one of the
framework's own: parameters that do not validate, or an exception. -/
inductive Phase where
  | arrived
  /-- past `transfer_slot`, where the route has it -/
  | entered
  | known (userId : Uuid) (endpoint : Endpoint)
  | handling
  /-- answered, with its dependencies still to be closed -/
  | leaving (response : Option Response)
  | closed (response : Option Response)

structure Visit where
  request : HttpRequest
  phase : Phase
  /-- what its handler asked of a limiter, and was told -/
  asked : Option (Limiter × RateLimit.Call)

def Visit.to (visit : Visit) (phase : Phase) : Visit := { visit with phase := phase }

def Visit.handled (visit : Visit) : Visit := visit.to .handling

def Visit.told (visit : Visit) (limiter : Limiter) (key : Text) (time : ℚ) (allowed : Bool) :
    Visit :=
  { visit with phase := .handling, asked := some (limiter, ⟨key, time, allowed⟩) }

section Steps
variable (platform : Platform) (category : Char → Category)

/-- One step of a request outside its handler: the state of its process, the
request, and the handler that begins, if one does. -/
def turn (running : Instance) (users : List Accounts.User) (time : ℚ) (app : App) (visit : Visit) :
    Option (App × Visit × Option Job) :=
  match visit.phase with
  | .arrived =>
      if visit.request.call.unreadable then some (app, visit.to (.closed none), none)
      else if visit.request.call.transfers then
        match transferSlot app with
        | .error response => some (app, visit.to (.closed (some response)), none)
        | .ok app => some (app, visit.to .entered, none)
      else some (app, visit.to .entered, none)
  | .entered =>
      match visit.request.call with
      | .own endpoint =>
          match Accounts.getCurrentUser platform users visit.request.authorization with
          | .error response => some (app, visit.to (.leaving (some response)), none)
          | .ok user => some (app, visit.to (.known user.id endpoint), none)
      | .downloadFile fileId exp v kid sig =>
          -- Rate limit first, so a flood of bad links never reaches the database.
          let key := ipKey visit.request.ip
          (enforceRateLimit running app .download key time).map fun (allowed, app) =>
            (app, visit.told .download key time allowed,
              some (.download ⟨running.settings, allowed, fileId, exp, v, kid, sig,
                visit.request.ip⟩))
  | .known userId endpoint =>
      match endpoint.validated with
      | none => some (app, visit.to (.leaving none), none)
      | some command =>
          let job := command.job platform category running.settings visit.request.ip userId
          if command.limited then
            let key := userKey userId
            (enforceRateLimit running app .api key time).map fun (allowed, app) =>
              (app, visit.told .api key time allowed, some (job allowed))
          else some (app, visit.handled, some (job true))
  | .handling => none
  | .leaving response =>
      some (if visit.request.call.transfers then app.release else app,
        visit.to (.closed response), none)
  | .closed _ => none

/-- Everything: the accounts, the service with its database and nodes, the API
processes, and the requests that have come, by their number. -/
structure World where
  accounts : Accounts.ScriptsConfig
  service : ServiceConfig
  apps : Nat → App
  visits : List Visit

def World.enter (world : World) (index : Nat) (job : Job) : ServiceConfig :=
  world.service.set (.api index) (.running job (Service.program platform job))

def proceed (site : Nat → Instance) (world : World) (index : Nat) (time : ℚ) : Option World :=
  world.visits[index]?.bind fun visit =>
    let process := visit.request.process
    (turn platform category (site process) world.accounts.shared.users time (world.apps process)
      visit).map fun (app, visit, job) => { world with
        service := job.elim world.service (world.enter platform index)
        apps := Function.update world.apps process app
        visits := world.visits.set index visit }

def answered : Outcome → Option Response
  | .response response => some response
  | _ => none

def returned (visits : List Visit) : ServiceLabel → List Visit
  | .finish (.api index) _ outcome => visits.modify index (·.to (.leaving (answered outcome)))
  | .fail (.api index) => visits.modify index (·.to (.leaving none))
  | _ => visits

inductive Label where
  | arrive (request : HttpRequest)
  | proceed (index : Nat) (time : ℚ)
  /-- an exception in a dependency -/
  | raise (index : Nat)
  | serve (label : ServiceLabel)
  | account (label : Accounts.ScriptsLabel)

/-- No handler begins but through its dependencies. -/
def inside : ServiceLabel → Bool
  | .start (.api _) _ => false
  | _ => true

def Phase.resolving : Phase → Bool
  | .entered | .known _ _ => true
  | _ => false

inductive Step (site : Nat → Instance) (world : World) : Label → World → Prop
  | arrive (request : HttpRequest) : Step site world (.arrive request)
      { world with visits := world.visits ++ [⟨request, .arrived, none⟩] }
  | proceed {index : Nat} {time : ℚ} {next : World}
      (done : proceed platform category site world index time = some next) :
      Step site world (.proceed index time) next
  | raise {index : Nat} {visit : Visit} (found : world.visits[index]? = some visit)
      (resolving : visit.phase.resolving = true) : Step site world (.raise index)
        { world with visits := world.visits.set index (visit.to (.leaving none)) }
  | serve {label : ServiceLabel} {service : ServiceConfig} (within : inside label = true)
      (taken : Program.Step (Service.service platform) world.service label service) :
      Step site world (.serve label)
        { world with service := service, visits := returned world.visits label }
  | account {label : Accounts.ScriptsLabel} {accounts : Accounts.ScriptsConfig}
      (taken : Program.Step (Accounts.scripts platform) world.accounts label accounts) :
      Step site world (.account label) { world with accounts := accounts }

end Steps

def opened (site : Nat → Instance) (clock : Nat) (monotonic : ℚ) : World where
  accounts := Accounts.migrated
  service := deployed clock
  apps process := ⟨(site process).maxConcurrentTransfers, fun _ => [], fun _ => monotonic⟩
  visits := []

inductive Choice where
  | arrive (request : HttpRequest)
  | proceed (index : Nat) (time : ℚ)
  | serve (move : ServiceMove)
  | account (move : Move Accounts.Shared Nat Accounts.Command Empty Accounts.Op Accounts.Res)

section Schedules
variable (platform : Platform) (category : Char → Category) (site : Nat → Instance)

def choose (world : World) : Choice → Option (Label × World)
  | .arrive request => some (.arrive request,
      { world with visits := world.visits ++ [⟨request, .arrived, none⟩] })
  | .proceed index time =>
      (proceed platform category site world index time).map fun next => (.proceed index time, next)
  | .serve move => (advance (Service.service platform) world.service move).bind
      fun (label, service) =>
        if inside label then
          some (.serve label,
            { world with service := service, visits := returned world.visits label })
        else none
  | .account move => (advance (Accounts.scripts platform) world.accounts move).map
      fun (label, accounts) => (.account label, { world with accounts := accounts })

def chosen (world : World) : List Choice → Option (List Label × World)
  | [] => some ([], world)
  | choice :: rest => (choose platform category site world choice).bind fun one =>
      (chosen one.2 rest).map fun all => (one.1 :: all.1, all.2)

variable {platform category site} {world next : World}

theorem choose_step {choice : Choice} {label : Label}
    (made : choose platform category site world choice = some (label, next)) :
    Step platform category site world label next := by
  unfold choose at made
  split at made
  · cases made
    exact .arrive _
  · obtain ⟨after, done, same⟩ := Option.map_eq_some_iff.mp made
    cases same
    exact .proceed done
  · obtain ⟨⟨own, service⟩, moved, same⟩ := Option.bind_eq_some_iff.mp made
    obtain ⟨within, given⟩ := Option.ite_none_right_eq_some.mp same
    cases given
    exact .serve within (advance_step _ _ _ _ _ moved)
  · obtain ⟨⟨own, accounts⟩, moved, same⟩ := Option.map_eq_some_iff.mp made
    cases same
    exact .account (advance_step _ _ _ _ _ moved)

theorem chosen_run {choices : List Choice} {labels : List Label}
    (made : chosen platform category site world choices = some (labels, next)) :
    Run (Step platform category site) world labels next := by
  induction choices generalizing world labels with
  | nil =>
      cases made
      exact .refl
  | cons choice rest ih =>
      obtain ⟨⟨label, middle⟩, first, more⟩ := Option.bind_eq_some_iff.mp made
      obtain ⟨⟨later, last⟩, driven, same⟩ := Option.map_eq_some_iff.mp more
      cases same
      exact run_cons (choose_step first) (ih driven)

theorem chosen_reaches {choices : List Choice} {check : List Label → World → Bool}
    (passed : (chosen platform category site world choices).any (fun made => check made.1 made.2) =
      true) : ∃ labels next, Run (Step platform category site) world labels next ∧
      check labels next = true := by
  cases made : chosen platform category site world choices with
  | none =>
      rw [made] at passed
      cases passed
  | some reached =>
      rw [made] at passed
      exact ⟨reached.1, reached.2, chosen_run made, passed⟩

end Schedules

inductive Turn (platform : Platform) (category : Char → Category) (running : Instance)
    (users : List Accounts.User) (time : ℚ) (app : App) (visit : Visit) :
    App → Visit → Option Job → Prop
  | unread (phase : visit.phase = .arrived) (unreadable : visit.request.call.unreadable = true) :
      Turn platform category running users time app visit app (visit.to (.closed none)) none
  | shed (phase : visit.phase = .arrived) (transfers : visit.request.call.transfers = true)
      (busy : app.transferSlots = 0) :
      Turn platform category running users time app visit app
        (visit.to (.closed (some serverBusy))) none
  | acquire (phase : visit.phase = .arrived) (transfers : visit.request.call.transfers = true)
      (free : app.transferSlots ≠ 0) :
      Turn platform category running users time app visit
        { app with transferSlots := app.transferSlots - 1 } (visit.to .entered) none
  | pass (phase : visit.phase = .arrived) (light : visit.request.call.transfers = false) :
      Turn platform category running users time app visit app (visit.to .entered) none
  | refuse (phase : visit.phase = .entered) (response : Response) :
      Turn platform category running users time app visit app
        (visit.to (.leaving (some response))) none
  | know (phase : visit.phase = .entered) {endpoint : Endpoint} {user : Accounts.User}
      (call : visit.request.call = .own endpoint)
      (found : Accounts.getCurrentUser platform users visit.request.authorization = .ok user) :
      Turn platform category running users time app visit app
        (visit.to (.known user.id endpoint)) none
  | fetch (phase : visit.phase = .entered) {fileId : Text} {exp v kid sig : Option Text}
      {allowed : Bool} {next : App}
      (call : visit.request.call = .downloadFile fileId exp v kid sig)
      (limit : enforceRateLimit running app .download (ipKey visit.request.ip) time =
        some (allowed, next)) :
      Turn platform category running users time app visit next
        (visit.told .download (ipKey visit.request.ip) time allowed)
        (some (.download ⟨running.settings, allowed, fileId, exp, v, kid, sig, visit.request.ip⟩))
  | invalid {userId : Uuid} {endpoint : Endpoint} (phase : visit.phase = .known userId endpoint) :
      Turn platform category running users time app visit app (visit.to (.leaving none)) none
  | limit {userId : Uuid} {endpoint : Endpoint} {command : Command} {allowed : Bool} {next : App}
      (phase : visit.phase = .known userId endpoint) (valid : endpoint.validated = some command)
      (limited : command.limited = true)
      (limit : enforceRateLimit running app .api (userKey userId) time = some (allowed, next)) :
      Turn platform category running users time app visit next
        (visit.told .api (userKey userId) time allowed)
        (some (command.job platform category running.settings visit.request.ip userId allowed))
  | plain {userId : Uuid} {endpoint : Endpoint} {command : Command}
      (phase : visit.phase = .known userId endpoint) (valid : endpoint.validated = some command)
      (unlimited : command.limited = false) :
      Turn platform category running users time app visit app visit.handled
        (some (command.job platform category running.settings visit.request.ip userId true))
  | close {response : Option Response} (phase : visit.phase = .leaving response) :
      Turn platform category running users time app visit
        (if visit.request.call.transfers then app.release else app)
        (visit.to (.closed response)) none

section Turns
variable {platform : Platform} {category : Char → Category} {running : Instance}
  {users : List Accounts.User} {time : ℚ} {app next : App} {visit after : Visit} {job : Option Job}

theorem turn_cases
    (turned : turn platform category running users time app visit = some (next, after, job)) :
    Turn platform category running users time app visit next after job := by
  unfold turn at turned
  -- The phases in the order in which a request comes through them.
  split at turned
  · rename_i phase
    split at turned
    · rename_i unreadable
      cases turned
      exact .unread phase unreadable
    split at turned
    · rename_i transfers
      unfold transferSlot at turned
      by_cases busy : app.transferSlots = 0
      · rw [if_pos busy] at turned
        cases turned
        exact .shed phase transfers busy
      · rw [if_neg busy] at turned
        cases turned
        exact .acquire phase transfers busy
    · rename_i light
      cases turned
      exact .pass phase (Bool.not_eq_true _ ▸ light)
  · rename_i phase
    split at turned
    · rename_i endpoint call
      split at turned
      · cases turned
        exact .refuse phase _
      · rename_i found
        cases turned
        exact .know phase call found
    · rename_i call
      obtain ⟨⟨allowed, limited⟩, limit, same⟩ := Option.map_eq_some_iff.mp turned
      cases same
      exact .fetch phase call limit
  · rename_i phase
    split at turned
    · cases turned
      exact .invalid phase
    · rename_i command valid
      dsimp only at turned
      split at turned
      · rename_i limited
        obtain ⟨⟨allowed, spent⟩, limit, same⟩ := Option.map_eq_some_iff.mp turned
        cases same
        exact .limit phase valid limited limit
      · rename_i unlimited
        cases turned
        exact .plain phase valid (Bool.not_eq_true _ ▸ unlimited)
  · cases turned
  · rename_i phase
    cases turned
    exact .close phase
  · cases turned

theorem transfer_turned
    (turned : Turn platform category running users time app visit next after job)
    (arrived : visit.phase = .arrived) (transfers : visit.request.call.transfers = true) :
    after = visit.to (if app.transferSlots = 0 then .closed (some serverBusy) else .entered) := by
  cases turned with
  | unread phase unreadable =>
      unfold Call.unreadable at unreadable
      split at unreadable
      · rename_i call
        rw [call] at transfers
        cases transfers
      · cases unreadable
  | shed phase _ busy => rw [if_pos busy]
  | acquire phase _ free => rw [if_neg free]
  | pass phase light =>
      rw [light] at transfers
      cases transfers
  | refuse phase response => cases phase.symm.trans arrived
  | know phase call found => cases phase.symm.trans arrived
  | fetch phase call limit => cases phase.symm.trans arrived
  | invalid phase => cases phase.symm.trans arrived
  | limit phase valid limited limit => cases phase.symm.trans arrived
  | plain phase valid unlimited => cases phase.symm.trans arrived
  | close phase => cases phase.symm.trans arrived

/-- A call of a limiter is a step of that limiter, and touches nothing else. -/
theorem enforce_step {limiter : Limiter} {key : Text} {allowed : Bool}
    (limit : enforceRateLimit running app limiter key time = some (allowed, next)) :
    RateLimit.Step (running.perMinute limiter)
        ⟨app.limiters limiter, app.monotonic limiter⟩ ⟨key, time, allowed⟩
        ⟨next.limiters limiter, next.monotonic limiter⟩ ∧
      (∀ other, other ≠ limiter → next.limiters other = app.limiters other ∧
        next.monotonic other = app.monotonic other) ∧
      next.transferSlots = app.transferSlots := by
  obtain ⟨order, given⟩ := Option.ite_none_right_eq_some.mp limit
  generalize answered :
    RateLimit.allow (running.perMinute limiter) (app.limiters limiter) key time = answer at given
  obtain ⟨verdict, buckets⟩ := answer
  cases given
  refine ⟨⟨order, ?_, ?_⟩, ?_, rfl⟩
  · exact Function.update_self _ _ _
  · rw [answered]
    dsimp only
    rw [Function.update_self]
  · intro other apart
    exact ⟨Function.update_of_ne apart _ _, Function.update_of_ne apart _ _⟩

end Turns

/-- From `transfer_slot` on, until the dependencies are closed. -/
def Phase.occupies : Phase → Bool
  | .arrived | .closed _ => false
  | _ => true

def holds (process : Nat) (visit : Visit) : Bool :=
  visit.request.process = process && visit.request.call.transfers && visit.phase.occupies

def Placed : Option Visit → Status Job Op Res Outcome → Prop
  | none, status => status = .fresh
  | some visit, status =>
      match visit.phase with
      | .handling => ∃ job rest, status = .running job rest
      | .leaving _ | .closed _ => ∀ job rest, status ≠ .running job rest
      | _ => status = .fresh

/-- Nothing of what follows the resolving of its dependencies has happened. -/
def Fitting (visit : Visit) : Prop :=
  match visit.phase with
  | .known _ endpoint => visit.request.call = .own endpoint ∧ visit.asked = none
  | .arrived | .entered => visit.asked = none
  | _ => True

/-- Every slot is free or held by one request, and the threads of the service
are those of the requests whose handlers run. -/
structure Sound (site : Nat → Instance) (world : World) : Prop where
  slots : ∀ process, (world.apps process).transferSlots + world.visits.countP (holds process) =
    (site process).maxConcurrentTransfers
  fitting : ∀ visit ∈ world.visits, Fitting visit
  placed : ∀ index, Placed world.visits[index]? (world.service.threads (.api index))

section Lists
variable {Item : Type} {items : List Item} {index : Nat} {old : Item}

theorem countP_set_found (counts : Item → Bool) (found : items[index]? = some old) (new : Item) :
    (items.set index new).countP counts + (if counts old then 1 else 0) =
      items.countP counts + if counts new then 1 else 0 := by
  obtain ⟨inside, rfl⟩ := List.getElem?_eq_some_iff.mp found
  rw [List.countP_set inside]
  by_cases counted : counts items[index] = true
  · have positive : 0 < items.countP counts :=
      List.countP_pos_iff.mpr ⟨_, List.getElem_mem inside, counted⟩
    simp only [counted, if_true]
    omega
  · simp [counted]

theorem modify_found (found : items[index]? = some old) (change : Item → Item) :
    items.modify index change = items.set index (change old) := by
  obtain ⟨inside, rfl⟩ := List.getElem?_eq_some_iff.mp found
  apply List.ext_getElem?
  intro other
  rw [List.getElem?_modify, List.getElem?_set]
  by_cases here : index = other
  · subst here
    simp [inside]
  · simp [here]

theorem mem_modify {item : Item} {change : Item → Item}
    (member : item ∈ items.modify index change) :
    item ∈ items ∨ ∃ old ∈ items, item = change old := by
  obtain ⟨place, found⟩ := List.mem_iff_getElem?.mp member
  rw [List.getElem?_modify] at found
  obtain ⟨other, there, same⟩ := Option.map_eq_some_iff.mp found
  by_cases here : index = place
  · rw [if_pos here] at same
    exact Or.inr ⟨other, List.mem_of_getElem? there, same.symm⟩
  · rw [if_neg here] at same
    exact Or.inl (same ▸ List.mem_of_getElem? there)

end Lists

section Invariant
variable {platform : Platform} {category : Char → Category} {site : Nat → Instance}
  {world next : World} {label : Label}

theorem holds_to (process : Nat) (visit : Visit) {phase : Phase}
    (same : phase.occupies = visit.phase.occupies) :
    holds process (visit.to phase) = holds process visit := by
  rw [holds, holds, Visit.to, same]

theorem placed_running {visit : Visit} {job : Job} {rest : Async Outcome}
    (placed : Placed (some visit) (.running job rest)) : visit.phase = .handling := by
  cases phase : visit.phase with
  | handling => rfl
  | leaving response =>
      simp only [Placed, phase] at placed
      exact absurd rfl (placed job rest)
  | closed response =>
      simp only [Placed, phase] at placed
      exact absurd rfl (placed job rest)
  | _ => simp [Placed, phase] at placed

theorem sound_set (sound : Sound site world) {index : Nat} {visit after : Visit}
    (found : world.visits[index]? = some visit) (fitting : Fitting after) {apps : Nat → App}
    {service : ServiceConfig}
    (slots : ∀ process, (apps process).transferSlots + (if holds process after then 1 else 0) =
      (world.apps process).transferSlots + if holds process visit then 1 else 0)
    (here : Placed (some after) (service.threads (.api index)))
    (others : ∀ other, other ≠ index →
      service.threads (.api other) = world.service.threads (.api other))
    (accounts : Accounts.ScriptsConfig) :
    Sound site ⟨accounts, service, apps, world.visits.set index after⟩ := by
  obtain ⟨inside, -⟩ := List.getElem?_eq_some_iff.mp found
  constructor
  · intro process
    have total := sound.slots process
    have moved := countP_set_found (holds process) found after
    have local_slots := slots process
    dsimp only at local_slots ⊢
    omega
  · intro other member
    rcases List.mem_or_eq_of_mem_set member with old | rfl
    · exact sound.fitting other old
    · exact fitting
  · intro other
    dsimp only
    rw [List.getElem?_set]
    by_cases mine : index = other
    · subst mine
      rw [if_pos rfl, if_pos inside]
      exact here
    · rw [if_neg mine, others other (Ne.symm mine)]
      exact sound.placed other

theorem turn_slots {running : Instance} {users : List Accounts.User} {time : ℚ} {app spent : App}
    {visit after : Visit} {job : Option Job}
    (turned : Turn platform category running users time app visit spent after job) :
    after.request = visit.request ∧
      spent.transferSlots + (if holds visit.request.process after then 1 else 0) =
        app.transferSlots + if holds visit.request.process visit then 1 else 0 := by
  cases turned with
  | unread phase unreadable => exact ⟨rfl, by simp [holds, Phase.occupies, Visit.to, phase]⟩
  | shed phase transfers busy =>
      refine ⟨rfl, ?_⟩
      simp [holds, Phase.occupies, Visit.to, phase]
  | acquire phase transfers free =>
      refine ⟨rfl, ?_⟩
      simp only [holds, Visit.to, Phase.occupies, phase, transfers, decide_true, Bool.and_self,
        if_true, Bool.and_false, Bool.false_eq_true, if_false]
      omega
  | pass phase light => exact ⟨rfl, by simp [holds, Phase.occupies, Visit.to, phase, light]⟩
  | refuse phase response => exact ⟨rfl, by simp [holds, Phase.occupies, Visit.to, phase]⟩
  | know phase call found => exact ⟨rfl, by simp [holds, Phase.occupies, Visit.to, phase]⟩
  | fetch phase call limit =>
      refine ⟨rfl, ?_⟩
      rw [(enforce_step limit).2.2]
      simp [holds, Phase.occupies, Visit.told, phase]
  | invalid phase => exact ⟨rfl, by simp [holds, Phase.occupies, Visit.to, phase]⟩
  | limit phase valid limited limit =>
      refine ⟨rfl, ?_⟩
      rw [(enforce_step limit).2.2]
      simp [holds, Phase.occupies, Visit.told, phase]
  | plain phase valid unlimited =>
      exact ⟨rfl, by simp [holds, Phase.occupies, Visit.handled, Visit.to, phase]⟩
  | close phase =>
      refine ⟨rfl, ?_⟩
      by_cases transfers : visit.request.call.transfers = true
      · simp [holds, Phase.occupies, Visit.to, phase, transfers, App.release]
      · simp [holds, Phase.occupies, Visit.to, phase, transfers]

theorem fresh_idle {status : Status Job Op Res Outcome} (fresh : status = .fresh) (job : Job)
    (rest : Async Outcome) : status ≠ .running job rest := by
  rw [fresh]
  exact nofun

theorem turn_placed {running : Instance} {users : List Accounts.User} {time : ℚ} {app spent : App}
    {visit after : Visit} {job : Option Job}
    (turned : Turn platform category running users time app visit spent after job)
    (fitting : Fitting visit) {status : Status Job Op Res Outcome}
    (placed : Placed (some visit) status) :
    Fitting after ∧
      Placed (some after) (job.elim status fun job => .running job (Service.program platform job)) ∧
      (job ≠ none → status = .fresh) := by
  cases turned with
  | unread phase unreadable =>
      simp only [Placed, phase] at placed
      exact ⟨trivial, fresh_idle placed, fun begun => absurd rfl begun⟩
  | shed phase transfers busy =>
      simp only [Placed, phase] at placed
      exact ⟨trivial, fresh_idle placed, fun begun => absurd rfl begun⟩
  | acquire phase transfers free =>
      simp only [Placed, Fitting, phase] at placed fitting
      exact ⟨fitting, placed, fun begun => absurd rfl begun⟩
  | pass phase light =>
      simp only [Placed, Fitting, phase] at placed fitting
      exact ⟨fitting, placed, fun begun => absurd rfl begun⟩
  | refuse phase response =>
      simp only [Placed, phase] at placed
      exact ⟨trivial, fresh_idle placed, fun begun => absurd rfl begun⟩
  | know phase call found =>
      simp only [Placed, Fitting, phase] at placed fitting
      exact ⟨⟨call, fitting⟩, placed, fun begun => absurd rfl begun⟩
  | fetch phase call limit =>
      simp only [Placed, phase] at placed
      exact ⟨trivial, ⟨_, _, rfl⟩, fun _ => placed⟩
  | invalid phase =>
      simp only [Placed, phase] at placed
      exact ⟨trivial, fresh_idle placed, fun begun => absurd rfl begun⟩
  | limit phase valid limited limit =>
      simp only [Placed, phase] at placed
      exact ⟨trivial, ⟨_, _, rfl⟩, fun _ => placed⟩
  | plain phase valid unlimited =>
      simp only [Placed, phase] at placed
      exact ⟨trivial, ⟨_, _, rfl⟩, fun _ => placed⟩
  | close phase =>
      simp only [Placed, phase] at placed
      exact ⟨trivial, placed, fun begun => absurd rfl begun⟩

theorem proceed_cases {index : Nat} {time : ℚ}
    (done : proceed platform category site world index time = some next) :
    ∃ visit after spent job, world.visits[index]? = some visit ∧
      Turn platform category (site visit.request.process) world.accounts.shared.users time
        (world.apps visit.request.process) visit spent after job ∧
      next = { world with
        service := job.elim world.service (world.enter platform index)
        apps := Function.update world.apps visit.request.process spent
        visits := world.visits.set index after } := by
  obtain ⟨visit, found, turned⟩ := Option.bind_eq_some_iff.mp done
  obtain ⟨⟨spent, after, job⟩, taken, same⟩ := Option.map_eq_some_iff.mp turned
  exact ⟨visit, after, spent, job, found, turn_cases taken, same.symm⟩

theorem sound_proceed (sound : Sound site world) {index : Nat} {time : ℚ}
    (done : proceed platform category site world index time = some next) : Sound site next := by
  obtain ⟨visit, after, spent, job, found, turned, rfl⟩ := proceed_cases done
  obtain ⟨same, slots⟩ := turn_slots turned
  have placed := sound.placed index
  rw [found] at placed
  obtain ⟨fitting, there, -⟩ :=
    turn_placed turned (sound.fitting visit (List.mem_of_getElem? found)) placed
  apply sound_set sound found fitting
  · intro process
    by_cases own : process = visit.request.process
    · subst own
      rw [Function.update_self]
      exact slots
    · rw [Function.update_of_ne own]
      simp [holds, same, Ne.symm own]
  · cases job with
    | none => exact there
    | some job =>
        rw [Option.elim_some, World.enter, threads_set, if_pos rfl]
        exact there
  · intro other apart
    cases job with
    | none => rfl
    | some job =>
        rw [Option.elim_some, World.enter, threads_set, if_neg (by simpa using apart)]

theorem sound_leave (sound : Sound site world) {index : Nat} {job : Job} {rest : Async Outcome}
    (running : world.service.threads (.api index) = .running job rest)
    (response : Option Response) :
    Sound site { world with
      service := world.service.set (.api index) .ended
      visits := world.visits.modify index (·.to (.leaving response)) } := by
  have placed := sound.placed index
  rw [running] at placed
  cases found : world.visits[index]? with
  | none =>
      rw [found] at placed
      cases placed
  | some visit =>
      rw [found] at placed
      have phase := placed_running placed
      rw [modify_found found]
      apply sound_set sound found
      · trivial
      · intro process
        rw [holds_to process visit (by rw [phase]; rfl)]
      · rintro other more same
        rw [threads_set, if_pos rfl] at same
        cases same
      · intro other apart
        rw [threads_set, if_neg (by simpa using apart)]

/-- Steps of the service that neither begin nor end a handler. -/
theorem sound_inside (sound : Sound site world) {service : ServiceConfig}
    (kept : ∀ index, service.threads (.api index) = world.service.threads (.api index) ∨
      (∃ job rest, world.service.threads (.api index) = .running job rest) ∧
        ∃ job rest, service.threads (.api index) = .running job rest) :
    Sound site { world with service := service } := by
  constructor
  · exact sound.slots
  · exact sound.fitting
  · intro index
    rcases kept index with same | ⟨⟨job, rest, running⟩, later⟩
    · rw [same]
      exact sound.placed index
    · have placed := sound.placed index
      rw [running] at placed
      cases found : world.visits[index]? with
      | none =>
          rw [found] at placed
          cases placed
      | some visit =>
          rw [found] at placed
          simp only [Placed, placed_running placed]
          exact later

theorem step_sound (sound : Sound site world)
    (taken : Step platform category site world label next) : Sound site next := by
  cases taken with
  | arrive request =>
      -- a new request holds no slot, and its thread is the next unused one
      constructor
      · intro process
        simpa [holds, Phase.occupies] using sound.slots process
      · intro visit member
        rcases List.mem_append.mp member with old | new
        · exact sound.fitting visit old
        · rw [List.mem_singleton.mp new]
          rfl
      · intro index
        have placed := sound.placed index
        dsimp only
        by_cases here : index = world.visits.length
        · subst here
          rw [List.getElem?_eq_none (Nat.le_refl _)] at placed
          simpa [Placed] using placed
        · by_cases early : index < world.visits.length
          · rw [List.getElem?_append_left early]
            exact placed
          · rw [List.getElem?_eq_none (by simp; omega)]
            rw [List.getElem?_eq_none (by omega)] at placed
            exact placed
  | proceed done => exact sound_proceed sound done
  | @raise index visit found resolving =>
      have placed := sound.placed index
      rw [found] at placed
      -- a dependency can only fail while the slot is held and no handler runs
      have resolved : visit.phase.occupies = true ∧
          world.service.threads (.api index) = .fresh := by
        cases phase : visit.phase with
        | entered =>
            simp only [Placed, phase] at placed
            exact ⟨rfl, placed⟩
        | known userId endpoint =>
            simp only [Placed, phase] at placed
            exact ⟨rfl, placed⟩
        | _ => simp [phase, Phase.resolving] at resolving
      apply sound_set sound found
      · trivial
      · intro process
        rw [holds_to process visit (by rw [resolved.1]; rfl)]
      · rintro job rest same
        rw [resolved.2] at same
        cases same
      · exact fun _ _ => rfl
  | @serve label service within taken =>
      cases taken with
      | @start thread job idle may =>
          cases thread with
          | api index => cases within
          | worker =>
              apply sound_inside sound
              intro index
              left
              rw [threads_set, if_neg (by simp)]
      | @act thread job request more answer shared at_op done =>
          apply sound_inside sound
          intro index
          simp only [threads_set]
          by_cases mine : Tid.api index = thread
          · subst mine
            right
            exact ⟨⟨_, _, at_op⟩, _, _, if_pos rfl⟩
          · left
            exact if_neg mine
      | @fail thread job request more at_op =>
          cases thread with
          | api index => exact sound_leave sound at_op none
          | worker =>
              apply sound_inside sound
              intro index
              left
              rw [threads_set, if_neg (by simp)]
      | @finish thread job out at_ret =>
          cases thread with
          | api index => exact sound_leave sound at_ret (answered out)
          | worker =>
              apply sound_inside sound
              intro index
              left
              rw [threads_set, if_neg (by simp)]
      | env done =>
          apply sound_inside sound
          intro index
          left
          rfl
  | account taken => exact ⟨sound.slots, sound.fitting, sound.placed⟩

theorem opened_sound (clock : Nat) (monotonic : ℚ) : Sound site (opened site clock monotonic) := by
  constructor
  · exact fun process => Nat.add_zero _
  · intro visit member
    cases member
  · exact fun index => rfl

end Invariant

def through (process : Nat) (limiter : Limiter) (key : Text) (s t : ℚ) (visit : Visit) : Bool :=
  visit.request.process = process &&
    match visit.asked with
    | none => false
    | some (asked, call) => decide (asked = limiter) &&
        (decide (call.key = key ∧ s ≤ call.time ∧ call.time ≤ t) && call.allowed)

def asks (visit : Visit) : Option (Limiter × Text) :=
  match visit.phase with
  | .entered =>
      match visit.request.call with
      | .own _ => none
      | .downloadFile _ _ _ _ _ => some (.download, ipKey visit.request.ip)
  | .known userId endpoint =>
      match endpoint.validated with
      | none => none
      | some command => if command.limited then some (.api, userKey userId) else none
  | _ => none

/-- No limiter forgets a client who still owes tokens. -/
def Remembering (site : Nat → Instance) (world : World) : Label → Prop
  | .proceed index time => ∀ visit limiter key, world.visits[index]? = some visit →
      asks visit = some (limiter, key) →
        let process := visit.request.process
        RateLimit.Forgiving ((site process).perMinute limiter)
          ⟨(world.apps process).limiters limiter, (world.apps process).monotonic limiter⟩
          ⟨key, time, true⟩
  | _ => True

abbrev Answers (running : Instance) (app : App) (limiter : Limiter) (monotonic : ℚ)
    (calls : List RateLimit.Call) : Prop :=
  Run (Guarded (RateLimit.Forgiving (running.perMinute limiter))
    (RateLimit.Step (running.perMinute limiter))) ⟨[], monotonic⟩ calls
      ⟨app.limiters limiter, app.monotonic limiter⟩

/-- The requests a limiter has let through are the calls it has granted. -/
def Metered (site : Nat → Instance) (monotonic : ℚ) (world : World) : Prop :=
  ∀ process limiter, ∃ calls,
    Answers (site process) (world.apps process) limiter monotonic calls ∧
    ∀ key s t, world.visits.countP (through process limiter key s t) =
      RateLimit.granted key s t calls

section Limits
variable {platform : Platform} {category : Char → Category} {site : Nat → Instance}
  {world next : World} {label : Label} {monotonic : ℚ}

theorem countP_modify {Item : Type} (items : List Item) (index : Nat) (change : Item → Item)
    (counts : Item → Bool) (same : ∀ item, counts (change item) = counts item) :
    (items.modify index change).countP counts = items.countP counts := by
  cases found : items[index]? with
  | none => rw [List.modify_eq_self (List.getElem?_eq_none_iff.mp found)]
  | some item =>
      rw [modify_found found]
      have moved := countP_set_found counts found (change item)
      rw [same] at moved
      omega

theorem turn_asks {running : Instance} {users : List Accounts.User} {time : ℚ} {app spent : App}
    {visit after : Visit} {job : Option Job}
    (turned : Turn platform category running users time app visit spent after job)
    (fitting : Fitting visit) :
    (spent.limiters = app.limiters ∧ spent.monotonic = app.monotonic ∧
      after.asked = visit.asked) ∨
    ∃ limiter key allowed, asks visit = some (limiter, key) ∧
      enforceRateLimit running app limiter key time = some (allowed, spent) ∧
      visit.asked = none ∧ after.asked = some (limiter, ⟨key, time, allowed⟩) := by
  cases turned with
  | fetch phase call limit =>
      right
      simp only [Fitting, phase] at fitting
      exact ⟨_, _, _, by simp [asks, phase, call], limit, fitting, rfl⟩
  | limit phase valid limited limit =>
      right
      simp only [Fitting, phase] at fitting
      exact ⟨_, _, _, by simp [asks, phase, valid, limited], limit, fitting.2, rfl⟩
  | close phase =>
      left
      split
      · exact ⟨rfl, rfl, rfl⟩
      · exact ⟨rfl, rfl, rfl⟩
  | _ => exact Or.inl ⟨rfl, rfl, rfl⟩

theorem through_eq {left right : Visit} (request : left.request = right.request)
    (asked : left.asked = right.asked) (process : Nat) (limiter : Limiter) (key : Text) (s t : ℚ) :
    through process limiter key s t left = through process limiter key s t right := by
  rw [through, through, request, asked]

theorem metered_proceed (sound : Sound site world) (metered : Metered site monotonic world)
    {index : Nat} {time : ℚ} (remembering : Remembering site world (.proceed index time))
    (done : proceed platform category site world index time = some next) :
    Metered site monotonic next := by
  obtain ⟨visit, after, spent, job, found, turned, rfl⟩ := proceed_cases done
  obtain ⟨request, -⟩ := turn_slots turned
  intro process limiter
  obtain ⟨calls, answers, counts⟩ := metered process limiter
  have moved := fun key s t => countP_set_found (through process limiter key s t) found after
  -- where nothing changes for this limiter, its calls stay as they are
  have still : (∀ key s t, through process limiter key s t after =
        through process limiter key s t visit) →
      (Function.update world.apps visit.request.process spent process).limiters limiter =
        (world.apps process).limiters limiter →
      (Function.update world.apps visit.request.process spent process).monotonic limiter =
        (world.apps process).monotonic limiter →
      ∃ calls, Answers (site process) (Function.update world.apps visit.request.process spent
        process) limiter monotonic calls ∧ ∀ key s t,
          (world.visits.set index after).countP (through process limiter key s t) =
            RateLimit.granted key s t calls := by
    intro alike buckets clock
    refine ⟨calls, ?_, fun key s t => ?_⟩
    · rw [Answers, buckets, clock]
      exact answers
    · have total := moved key s t
      rw [alike] at total
      rw [← counts]
      omega
  rcases turn_asks turned (sound.fitting visit (List.mem_of_getElem? found)) with
    ⟨buckets, clock, asked⟩ | ⟨used, key, allowed, wants, limit, unasked, asked⟩
  · apply still (through_eq request asked process limiter)
    · by_cases mine : process = visit.request.process
      · rw [mine, Function.update_self, buckets]
      · rw [Function.update_of_ne mine]
    · by_cases mine : process = visit.request.process
      · rw [mine, Function.update_self, clock]
      · rw [Function.update_of_ne mine]
  · obtain ⟨taken, others, -⟩ := enforce_step limit
    by_cases mine : process = visit.request.process ∧ limiter = used
    · -- the limiter has answered one call more, and so has the request
      obtain ⟨rfl, rfl⟩ := mine
      refine ⟨calls ++ [⟨key, time, allowed⟩], ?_, fun other s t => ?_⟩
      · dsimp only
        rw [Answers, Function.update_self]
        exact .next answers ⟨taken, remembering visit limiter key found wants⟩
      · have total := moved other s t
        rw [RateLimit.granted_next, ← counts]
        simp only [through, request, asked, unasked, decide_true, Bool.true_and, Bool.and_false,
          Bool.and_eq_true, decide_eq_true_eq, Bool.false_eq_true, if_false] at total
        exact total
    · apply still
      · intro other s t
        rw [through, through, request, asked, unasked]
        by_cases here : visit.request.process = process
        · have apart : used ≠ limiter := fun same => mine ⟨here.symm, same.symm⟩
          simp [apart]
        · simp [here]
      · by_cases here : process = visit.request.process
        · rw [here, Function.update_self, (others limiter fun same => mine ⟨here, same⟩).1]
        · rw [Function.update_of_ne here]
      · by_cases here : process = visit.request.process
        · rw [here, Function.update_self, (others limiter fun same => mine ⟨here, same⟩).2]
        · rw [Function.update_of_ne here]

theorem step_metered (sound : Sound site world) (metered : Metered site monotonic world)
    (taken : Guarded (Remembering site) (Step platform category site) world label next) :
    Metered site monotonic next := by
  have kept : ∀ (visits : List Visit) (service : ServiceConfig) (accounts : Accounts.ScriptsConfig),
      (∀ process limiter key s t, visits.countP (through process limiter key s t) =
        world.visits.countP (through process limiter key s t)) →
      Metered site monotonic ⟨accounts, service, world.apps, visits⟩ := by
    intro visits service accounts same process limiter
    obtain ⟨calls, answers, counts⟩ := metered process limiter
    exact ⟨calls, answers, fun key s t => (same process limiter key s t).trans (counts key s t)⟩
  obtain ⟨taken, remembering⟩ := taken
  cases taken with
  | arrive request =>
      apply kept
      intro process limiter key s t
      simp [through]
  | proceed done => exact metered_proceed sound metered remembering done
  | @raise index visit found resolving =>
      apply kept
      intro process limiter key s t
      have same : through process limiter key s t (visit.to (.leaving none)) =
          through process limiter key s t visit := through_eq rfl rfl process limiter key s t
      have moved := countP_set_found (through process limiter key s t) found
        (visit.to (.leaving none))
      rw [same] at moved
      omega
  | @serve label service within taken =>
      have returns : ∀ index response process limiter key s t,
          (world.visits.modify index (·.to (.leaving response))).countP
              (through process limiter key s t) =
            world.visits.countP (through process limiter key s t) := by
        intro index response process limiter key s t
        exact countP_modify _ _ _ _ fun visit => through_eq rfl rfl process limiter key s t
      apply kept
      intro process limiter key s t
      unfold returned
      split
      · exact returns _ _ process limiter key s t
      · exact returns _ _ process limiter key s t
      · rfl
  | account taken => exact kept _ _ _ fun _ _ _ _ _ => rfl

theorem opened_metered (clock : Nat) : Metered site monotonic (opened site clock monotonic) :=
  fun _ _ => ⟨[], .refl, fun _ _ _ => rfl⟩

end Limits

end SecureFileSystem.Admission
